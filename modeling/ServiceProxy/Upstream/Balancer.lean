import Mathlib.Algebra.Order.Ring.Int
import Mathlib.Data.List.Basic

/-!
# The counters of `upstream/balancer.rs`

`Counters` is what the counting selectors (`CountingRoundRobin`, `LeastConn`, `P2C`) share: for every upstream the
requests routed to it so far and those in flight.  A token is the index of the upstream as an `i32`.
-/

namespace ServiceProxy.Upstream

/-- `struct Counters`. -/
structure Counters where
  addrs : List String
  total : List ℤ
  inflight : List ℤ
  deriving DecidableEq, Repr

/-- `Counters::new`. -/
def Counters.new (addrs : List String) : Counters :=
  { addrs, total := List.replicate addrs.length 0, inflight := List.replicate addrs.length 0 }

/-- `fetch_add(d)` on the counter at `i`. -/
def fetchAddAt (xs : List ℤ) (i : ℕ) (d : ℤ) : List ℤ := xs.modify i (· + d)

/-- `idx as i32`. -/
def asI32 (idx : ℕ) : ℤ := (idx : ℤ).bmod (2 ^ 32)

/-- `Counters::release`. -/
def Counters.release (c : Counters) (token : ℤ) : Counters :=
  if 0 ≤ token then { c with inflight := fetchAddAt c.inflight token.toNat (-1) } else c

theorem asI32_eq {idx : ℕ} (h : idx < 2 ^ 31) : asI32 idx = idx := by
  unfold asI32
  rw [Int.bmod_eq_of_le] <;> omega

@[simp] theorem length_fetchAddAt (xs : List ℤ) (i : ℕ) (d : ℤ) : (fetchAddAt xs i d).length = xs.length := by
  simp [fetchAddAt]

theorem getD_fetchAddAt {xs : List ℤ} {i : ℕ} (hi : i < xs.length) (d : ℤ) (k : ℕ) :
    (fetchAddAt xs i d).getD k 0 = xs.getD k 0 + if i = k then d else 0 := by
  simp only [fetchAddAt, List.getD_eq_getElem?_getD, List.getElem?_modify]
  split_ifs with h
  · subst h
    simp [hi]
  · simp

end ServiceProxy.Upstream
