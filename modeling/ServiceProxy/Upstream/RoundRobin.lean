import ServiceProxy.Lib.Tickets
import ServiceProxy.Lib.Transition

/-!
# `RoundRobin` of `upstream/balancer.rs`

Any number of calls of `RoundRobin::next` at once: a call is at `fetch` before the `fetch_add` on `counter`, at `index` before
it reads the address, and `held` with what it returned.  `release` does nothing, and there are no statistics.

A call draws a number from the counter and takes the address of that number (`orderly_of_run`).
-/

namespace ServiceProxy.Upstream

open ServiceProxy.Lib

/-- `struct RoundRobin`. -/
structure RoundRobin where
  addrs : List String
  counter : ℕ
  deriving DecidableEq, Repr

/-- `RoundRobin::new`. -/
def RoundRobin.new (addrs : List String) : RoundRobin := { addrs, counter := 0 }

namespace RoundRobin

inductive Pc
  | fetch | index (i : ℕ) | held (addr : String) (token : ℤ)
  deriving DecidableEq, Repr

/-- One operation of a call of `next`.  The remainder by zero panics: the call goes no further. -/
def act (s : RoundRobin) : Pc → Unit → Option (RoundRobin × Pc)
  | .fetch, _ => some ({ s with counter := (s.counter + 1) % 2 ^ 64 }, .index s.counter)
  | .index i, _ =>
    if s.addrs.length = 0 then none else (s.addrs[i % s.addrs.length]?).map fun addr => (s, .held addr (-1))
  | .held .., _ => none

abbrev Sys := Threads RoundRobin Pc

def Sys.new (addrs : List String) : Sys := ⟨RoundRobin.new addrs, []⟩

inductive Ev
  | next
  | run (k : ℕ)
  | release (token : ℤ)
  deriving DecidableEq, Repr

def step (s : Sys) : Ev → Option Sys
  | .next => some ⟨s.shared, s.tasks ++ [.fetch]⟩
  | .run k => runLocal act s k ()
  | .release _ => some s

/-- What is seen of a step: the number that a call draws from `counter`, the address that it returns. -/
def seen (s : Sys) : Ev → List (Note String)
  | .run k =>
    match s.tasks[k]? with
    | some .fetch => [.drew k s.shared.counter]
    | some (.index i) =>
      ((s.shared.addrs[i % s.shared.addrs.length]?).map (Note.took k (i % s.shared.addrs.length))).toList
    | _ => []
  | .next | .release _ => []

def Pc.busy : Pc → ℕ
  | .fetch | .index _ => 1
  | .held .. => 0

/-! ## One step -/

def Pc.waits : Pc → ℕ
  | .fetch => 1
  | _ => 0

def Pc.picks (n : ℕ) : Pc → Option ℕ
  | .index i => some (i % n)
  | _ => none

/-- **The invariant.** -/
structure Numbered (addrs : List String) (notes : List (Note String)) (es : List Ev) (s : Sys) : Prop where
  addrs_eq : s.shared.addrs = addrs
  ticketed : Ticketed (2 ^ 64) addrs Pc.waits (Pc.picks addrs.length) (es.count .next) s.shared.counter notes s.tasks

variable {addrs : List String} {notes : List (Note String)} {es : List Ev} {s t : Sys} {e : Ev} {k : ℕ}

theorem numbered_step (h : Numbered addrs notes es s) (hs : step s e = some t) :
    Numbered addrs (notes ++ seen s e) (es ++ [e]) t := by
  obtain ⟨haddrs, h⟩ := h
  have hother : ∀ e, e ≠ Ev.next → (es ++ [e]).count .next = es.count .next := fun e he => count_concat_of_ne he es
  cases e with
  | next =>
    obtain rfl : _ = t := by simpa [step] using hs
    refine ⟨haddrs, ?_⟩
    rw [List.count_append, List.count_singleton_self, seen, List.append_nil]
    exact h.come (t := .fetch) rfl
  | release token =>
    obtain rfl : s = t := by simpa [step] using hs
    refine ⟨haddrs, ?_⟩
    rwa [hother _ (by simp), seen, List.append_nil]
  | run k =>
    obtain ⟨pc, rr, pc', hk, ha, rfl⟩ := runLocal_eq_some hs
    cases pc with
    | fetch =>
      obtain ⟨rfl, rfl⟩ := Prod.mk.inj (Option.some.inj ha)
      refine ⟨haddrs, ?_⟩
      rw [hother _ (by simp), seen, hk]
      exact h.draw hk rfl rfl rfl rfl
    | index i =>
      simp only [act, Option.ite_none_left_eq_some] at ha
      obtain ⟨addr, haddr, heq⟩ := Option.map_eq_some_iff.1 ha.2
      obtain ⟨rfl, rfl⟩ := Prod.mk.inj heq
      refine ⟨haddrs, ?_⟩
      rw [hother _ (by simp), seen, hk]
      simp only [haddr, Option.map_some, Option.toList_some]
      rw [haddrs] at haddr ⊢
      exact h.take hk rfl rfl rfl haddr
    | held addr token => cases ha

/-! ## Whole runs -/

/-- What is seen of a run. -/
def notesOf (addrs : List String) (es : List Ev) : List (Note String) := trace step seen (Sys.new addrs) es

/-- **Every call draws its own number and returns the address of that number**, when all calls have returned. -/
theorem orderly_of_run (h : Run step Any (Sys.new addrs) es s) (hk : es.count .next ≤ 2 ^ 64)
    (hdone : ∀ pc ∈ s.tasks, pc.busy = 0) :
    Orderly addrs (es.count .next) (notesOf addrs es) := by
  have hnew : Numbered addrs [] [] (Sys.new addrs) := ⟨rfl, ticketed_nil⟩
  have hinv : Numbered addrs (notesOf addrs es) es s :=
    h.observed hnew fun _ _ _ _ _ hu _ hs => numbered_step hu hs
  have hidle : ∀ pc ∈ s.tasks, pc.waits = 0 ∧ pc.picks addrs.length = none := by
    intro pc hpc
    have hbusy := hdone pc hpc
    cases pc with
    | fetch | index => cases hbusy
    | held => exact ⟨rfl, rfl⟩
  exact hinv.ticketed.orderly hk (fun pc hpc => (hidle pc hpc).1) fun pc hpc => (hidle pc hpc).2

end RoundRobin

end ServiceProxy.Upstream
