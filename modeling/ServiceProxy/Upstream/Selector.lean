import ServiceProxy.Lib.Transition
import ServiceProxy.Lib.Threads
import ServiceProxy.Upstream.Balancer

/-!
# The counting selectors of `upstream/balancer.rs`

`CountingRoundRobin`, `LeastConn` and `P2C` over their shared `Counters`, any number of calls of `next`, `release` and
`stats(reset)` at once, one atomic operation at a time.  `go/internal/upstream/balancer.go` is the same code, but for the
token: an index cut to an `i32` in Rust (`asI32`), the index itself in Go; so `step` takes the conversion as an argument.

The places of a call are, in the order of the code: of `next`, `roundRobin` (before the `fetch_add` on `counter`),
`leastFirst` and `leastScan` (before the loads of `LeastConn`), `p2cDraw` (before the two draws), `p2cOther` and `p2cOwn`
(before the two loads of `P2C`), `pickTotal` and `pickInflight` (before the two `fetch_add`s of `pick`), `held` (the caller
has the token); of `stats`, for the upstream whose number is the length of the snapshot so far, `statsLoad` (before the load
of `total`), `statsSub` (before the `fetch_sub`), `statsInflight` (before the load of `inflight`), and `statsDone`.

`act` and `step` compute with integers.  The counters are `AtomicI64`s (`atomic.Int64` in Go), which wrap: the selectors of
the two implementations are `act64` and `step64` of `Upstream.Wrapping`, which take the counters modulo `2 ^ 64` after every
operation.
-/

namespace ServiceProxy.Upstream.Selectors

open ServiceProxy.Lib

/-! ## The code -/

inductive Kind
  | countingRoundRobin | leastConn | p2c
  deriving DecidableEq, Repr

/-- `struct UpstreamStat`. -/
structure UpstreamStat where
  addr : String
  total : ℤ
  inflight : ℤ
  deriving DecidableEq, Repr

/-- An operation on a counter of the upstream `i`; a release counts for the upstream whose token is given back. -/
inductive Op
  | addTotal (i : ℕ) | subTotal (i : ℕ) (total : ℤ) | addInflight (i : ℕ) | release (i : ℕ)
  deriving DecidableEq, Repr

/-- A selector, with the operations executed so far. -/
structure Selector where
  kind : Kind
  counters : Counters
  counter : ℕ
  log : List Op
  deriving DecidableEq, Repr

/-- `CountingRoundRobin::new`, `LeastConn::new`, `P2C::new`. -/
def Selector.new (kind : Kind) (addrs : List String) : Selector :=
  { kind, counters := Counters.new addrs, counter := 0, log := [] }

/-- Where a call stands (see the module's text); `seen` is the load that the choice rests on. -/
inductive Pc
  | roundRobin
  | leastFirst | leastScan (i best : ℕ) (bestLoad : ℤ) (ties : ℕ)
  | p2cDraw | p2cOther (i j : ℕ) | p2cOwn (i j : ℕ) (load : ℤ)
  | pickTotal (idx : ℕ) (seen : ℤ) | pickInflight (idx : ℕ) (seen : ℤ)
  | held (idx : ℕ) (token : ℤ)
  | statsLoad (reset : Bool) (snap : List UpstreamStat) | statsSub (total : ℤ) (snap : List UpstreamStat)
  | statsInflight (reset : Bool) (total : ℤ) (snap : List UpstreamStat)
  | statsDone (reset : Bool) (snap : List UpstreamStat)
  | ended
  deriving DecidableEq, Repr

/-- `next` is called. -/
def Kind.next : Kind → Pc
  | .countingRoundRobin => .roundRobin
  | .leastConn => .leastFirst
  | .p2c => .p2cDraw

/-- The head of the loop of `LeastConn::next`. -/
def scan (n i best : ℕ) (bestLoad : ℤ) (ties : ℕ) : Pc :=
  if i < n then .leastScan i best bestLoad ties else .pickTotal best bestLoad

/-- The head of the loop of `stats`. -/
def stats (n : ℕ) (reset : Bool) (snap : List UpstreamStat) : Pc :=
  if snap.length < n then .statsLoad reset snap else .statsDone reset snap

/-- What a call does next.  A load that finds a tie asks the generator whether to take it; `random` are the two draws of
`P2C`. -/
inductive Act
  | fetchAdd | load (tie : Bool) | random (i j : ℕ) | fetchSub | release
  deriving DecidableEq, Repr

/-- One operation of a call.  An index out of range panics: the call goes no further. -/
def act (asToken : ℕ → ℤ) (s : Selector) : Pc → Act → Option (Selector × Pc)
  | .roundRobin, .fetchAdd =>
    if s.counters.addrs.length = 0 then none
    else
      some ({ s with counter := (s.counter + 1) % 2 ^ 64 }, .pickTotal (s.counter % s.counters.addrs.length) 0)
  | .leastFirst, .load _ =>
    match s.counters.inflight[0]? with
    | some load => some (s, scan s.counters.addrs.length 1 0 load 1)
    | none => none
  | .leastScan i best bestLoad ties, .load tie =>
    match s.counters.inflight[i]? with
    | some load =>
      if load < bestLoad then some (s, scan s.counters.addrs.length (i + 1) i load 1)
      else if load = bestLoad then
        some (s, scan s.counters.addrs.length (i + 1) (if tie then i else best) bestLoad (ties + 1))
      else some (s, scan s.counters.addrs.length (i + 1) best bestLoad ties)
    | none => none
  | .p2cDraw, .random i j =>
    if i < s.counters.addrs.length ∧ j < s.counters.addrs.length - 1 then
      some (s, .p2cOther i (if i ≤ j then j + 1 else j))
    else none
  | .p2cOther i j, .load _ =>
    match s.counters.inflight[j]? with
    | some load => some (s, .p2cOwn i j load)
    | none => none
  | .p2cOwn i j other, .load _ =>
    match s.counters.inflight[i]? with
    | some load => some (s, if other < load then .pickTotal j other else .pickTotal i load)
    | none => none
  | .pickTotal idx seen, .fetchAdd =>
    some ({ s with
      counters := { s.counters with total := fetchAddAt s.counters.total idx 1 }
      log := s.log ++ [.addTotal idx] }, .pickInflight idx seen)
  | .pickInflight idx _, .fetchAdd =>
    some ({ s with
      counters := { s.counters with inflight := fetchAddAt s.counters.inflight idx 1 }
      log := s.log ++ [.addInflight idx] }, .held idx (asToken idx))
  | .held idx token, .release =>
    some ({ s with counters := s.counters.release token, log := s.log ++ [.release idx] }, .ended)
  | .statsLoad reset snap, .load _ =>
    match s.counters.total[snap.length]? with
    | some total => some (s, if reset then .statsSub total snap else .statsInflight false total snap)
    | none => none
  | .statsSub total snap, .fetchSub =>
    some ({ s with
      counters := { s.counters with total := fetchAddAt s.counters.total snap.length (-total) }
      log := s.log ++ [.subTotal snap.length total] }, .statsInflight true total snap)
  | .statsInflight reset total snap, .load _ =>
    match s.counters.addrs[snap.length]?, s.counters.inflight[snap.length]? with
    | some addr, some inflight => some (s, stats s.counters.addrs.length reset (snap ++ [⟨addr, total, inflight⟩]))
    | _, _ => none
  | _, _ => none

abbrev Sys := Threads Selector Pc

def Sys.new (kind : Kind) (addrs : List String) : Sys := ⟨Selector.new kind addrs, []⟩

inductive Ev
  | next
  | stats (reset : Bool)
  | run (k : ℕ) (a : Act)
  deriving DecidableEq, Repr

/-- One step: a call of `next` or `stats` begins, or a call does one operation. -/
def step (asToken : ℕ → ℤ) (s : Sys) : Ev → Option Sys
  | .next => some ⟨s.shared, s.tasks ++ [s.shared.kind.next]⟩
  | .stats reset => some ⟨s.shared, s.tasks ++ [stats s.shared.counters.addrs.length reset []]⟩
  | .run k a => runLocal (act asToken) s k a

def Pc.busy : Pc → ℕ
  | .roundRobin | .leastFirst | .leastScan .. | .p2cDraw | .p2cOther .. | .p2cOwn .. | .pickTotal .. | .pickInflight .. => 1
  | _ => 0

def load (xs : List ℤ) (i : ℕ) : ℤ := xs.getD i 0

/-! ## What a step can do -/

inductive Acted (asToken : ℕ → ℤ) (s : Selector) : Pc → Act → Selector → Pc → Prop
  | roundRobin : s.counters.addrs.length ≠ 0 →
      Acted asToken s .roundRobin .fetchAdd { s with counter := (s.counter + 1) % 2 ^ 64 }
        (.pickTotal (s.counter % s.counters.addrs.length) 0)
  | leastFirst {tie : Bool} {load : ℤ} : s.counters.inflight[0]? = some load →
      Acted asToken s .leastFirst (.load tie) s (scan s.counters.addrs.length 1 0 load 1)
  | less {i best ties : ℕ} {bestLoad load : ℤ} {tie : Bool} : s.counters.inflight[i]? = some load → load < bestLoad →
      Acted asToken s (.leastScan i best bestLoad ties) (.load tie) s (scan s.counters.addrs.length (i + 1) i load 1)
  | tie {i best ties : ℕ} {bestLoad : ℤ} {tie : Bool} : s.counters.inflight[i]? = some bestLoad →
      Acted asToken s (.leastScan i best bestLoad ties) (.load tie) s
        (scan s.counters.addrs.length (i + 1) (if tie then i else best) bestLoad (ties + 1))
  | more {i best ties : ℕ} {bestLoad load : ℤ} {tie : Bool} : s.counters.inflight[i]? = some load → bestLoad < load →
      Acted asToken s (.leastScan i best bestLoad ties) (.load tie) s
        (scan s.counters.addrs.length (i + 1) best bestLoad ties)
  | p2cDraw {i j : ℕ} : i < s.counters.addrs.length → j < s.counters.addrs.length - 1 →
      Acted asToken s .p2cDraw (.random i j) s (.p2cOther i (if i ≤ j then j + 1 else j))
  | p2cOther {i j : ℕ} {load : ℤ} {tie : Bool} : s.counters.inflight[j]? = some load →
      Acted asToken s (.p2cOther i j) (.load tie) s (.p2cOwn i j load)
  | p2cOwn {i j : ℕ} {other load : ℤ} {tie : Bool} : s.counters.inflight[i]? = some load →
      Acted asToken s (.p2cOwn i j other) (.load tie) s (if other < load then .pickTotal j other else .pickTotal i load)
  | pickTotal {idx : ℕ} {seen : ℤ} : Acted asToken s (.pickTotal idx seen) .fetchAdd
      { s with
        counters := { s.counters with total := fetchAddAt s.counters.total idx 1 }
        log := s.log ++ [.addTotal idx] } (.pickInflight idx seen)
  | pickInflight {idx : ℕ} {seen : ℤ} : Acted asToken s (.pickInflight idx seen) .fetchAdd
      { s with
        counters := { s.counters with inflight := fetchAddAt s.counters.inflight idx 1 }
        log := s.log ++ [.addInflight idx] } (.held idx (asToken idx))
  | release {idx : ℕ} {token : ℤ} : Acted asToken s (.held idx token) .release
      { s with counters := s.counters.release token, log := s.log ++ [.release idx] } .ended
  | statsLoad {reset tie : Bool} {snap : List UpstreamStat} {total : ℤ} : s.counters.total[snap.length]? = some total →
      Acted asToken s (.statsLoad reset snap) (.load tie) s
        (if reset then .statsSub total snap else .statsInflight false total snap)
  | statsSub {total : ℤ} {snap : List UpstreamStat} : Acted asToken s (.statsSub total snap) .fetchSub
      { s with
        counters := { s.counters with total := fetchAddAt s.counters.total snap.length (-total) }
        log := s.log ++ [.subTotal snap.length total] } (.statsInflight true total snap)
  | statsInflight {reset tie : Bool} {total inflight : ℤ} {snap : List UpstreamStat} {addr : String} :
      s.counters.addrs[snap.length]? = some addr → s.counters.inflight[snap.length]? = some inflight →
      Acted asToken s (.statsInflight reset total snap) (.load tie) s
        (stats s.counters.addrs.length reset (snap ++ [⟨addr, total, inflight⟩]))

variable {asToken : ℕ → ℤ}

/-- **Inversion of `act`.** -/
theorem acted_of_act {s s' : Selector} {pc pc' : Pc} {a : Act} (h : act asToken s pc a = some (s', pc')) :
    Acted asToken s pc a s' pc' := by
  unfold act at h
  split at h
  · split at h <;> simp only [Option.some.injEq, Prod.mk.injEq, reduceCtorEq] at h
    obtain ⟨rfl, rfl⟩ := h
    exact .roundRobin ‹_›
  · split at h <;> simp only [Option.some.injEq, Prod.mk.injEq, reduceCtorEq] at h
    obtain ⟨rfl, rfl⟩ := h
    exact .leastFirst ‹_›
  · -- the scan: less, equal, more
    split at h
    · rename_i load hload
      split at h
      · obtain ⟨rfl, rfl⟩ := Prod.mk.inj (Option.some.inj h)
        exact .less hload ‹_›
      · split at h
        · rename_i htie
          obtain ⟨rfl, rfl⟩ := Prod.mk.inj (Option.some.inj h)
          exact .tie (htie ▸ hload)
        · obtain ⟨rfl, rfl⟩ := Prod.mk.inj (Option.some.inj h)
          exact .more hload (by omega)
    · cases h
  · split at h <;> simp only [Option.some.injEq, Prod.mk.injEq, reduceCtorEq] at h
    rename_i hdraw
    obtain ⟨rfl, rfl⟩ := h
    exact .p2cDraw hdraw.1 hdraw.2
  · split at h <;> simp only [Option.some.injEq, Prod.mk.injEq, reduceCtorEq] at h
    obtain ⟨rfl, rfl⟩ := h
    exact .p2cOther ‹_›
  · split at h <;> simp only [Option.some.injEq, Prod.mk.injEq, reduceCtorEq] at h
    obtain ⟨rfl, rfl⟩ := h
    exact .p2cOwn ‹_›
  · obtain ⟨rfl, rfl⟩ := Prod.mk.inj (Option.some.inj h)
    exact .pickTotal
  · obtain ⟨rfl, rfl⟩ := Prod.mk.inj (Option.some.inj h)
    exact .pickInflight
  · obtain ⟨rfl, rfl⟩ := Prod.mk.inj (Option.some.inj h)
    exact .release
  · split at h <;> simp only [Option.some.injEq, Prod.mk.injEq, reduceCtorEq] at h
    obtain ⟨rfl, rfl⟩ := h
    exact .statsLoad ‹_›
  · obtain ⟨rfl, rfl⟩ := Prod.mk.inj (Option.some.inj h)
    exact .statsSub
  · split at h <;> simp only [Option.some.injEq, Prod.mk.injEq, reduceCtorEq] at h
    obtain ⟨rfl, rfl⟩ := h
    exact .statsInflight ‹_› ‹_›
  · cases h

/-! ## Indices stay in range -/

/-- The indices a call works with are those of upstreams. -/
def Pc.InRange (n : ℕ) : Pc → Prop
  | .leastScan i best _ _ => i < n ∧ best < n
  | .p2cOther i j | .p2cOwn i j _ => i < n ∧ j < n
  | .pickTotal idx _ | .pickInflight idx _ | .held idx _ => idx < n
  | .statsLoad _ snap | .statsSub _ snap | .statsInflight _ _ snap => snap.length < n
  | .statsDone _ snap => snap.length ≤ n
  | .roundRobin | .leastFirst | .p2cDraw | .ended => True

/-- **The shape of a selector**: a counter of each kind for every upstream, and indices in range. -/
structure Shape (addrs : List String) (s : Sys) : Prop where
  addrs_eq : s.shared.counters.addrs = addrs
  total : s.shared.counters.total.length = addrs.length
  inflight : s.shared.counters.inflight.length = addrs.length
  inRange : ∀ pc ∈ s.tasks, pc.InRange addrs.length

section Shape

variable {n i best ties : ℕ} {bestLoad : ℤ} {reset : Bool} {snap : List UpstreamStat} {s t : Sys} {e : Ev}
  {addrs : List String} {pc pc' : Pc} {a : Act} {sel sel' : Selector}

theorem inRange_scan (h : best < n) : (scan n i best bestLoad ties).InRange n := by
  unfold scan
  split_ifs with hi
  · exact ⟨hi, h⟩
  · exact h

theorem inRange_stats (h : snap.length ≤ n) : (stats n reset snap).InRange n := by
  unfold stats
  split_ifs with hlt
  · exact hlt
  · exact h

theorem inRange_next (kind : Kind) : kind.next.InRange n := by
  cases kind <;> trivial

theorem length_release (c : Counters) (token : ℤ) : (c.release token).inflight.length = c.inflight.length := by
  unfold Counters.release
  split_ifs <;> simp

theorem addrs_release (c : Counters) (token : ℤ) : (c.release token).addrs = c.addrs := by
  unfold Counters.release
  split_ifs <;> rfl

theorem total_release (c : Counters) (token : ℤ) : (c.release token).total = c.total := by
  unfold Counters.release
  split_ifs <;> rfl

theorem Acted.counters (h : Acted asToken sel pc a sel' pc') :
    sel'.counters.addrs = sel.counters.addrs ∧ sel'.counters.total.length = sel.counters.total.length ∧
      sel'.counters.inflight.length = sel.counters.inflight.length := by
  cases h with
  | release => exact ⟨addrs_release _ _, by rw [total_release], length_release _ _⟩
  | pickTotal | pickInflight | statsSub => simp
  | _ => exact ⟨rfl, rfl, rfl⟩

theorem Acted.inRange (h : Acted asToken sel pc a sel' pc') (hpc : pc.InRange sel.counters.addrs.length)
    (hlen : sel.counters.inflight.length = sel.counters.addrs.length) : pc'.InRange sel.counters.addrs.length := by
  cases h with
  | roundRobin hn => exact Nat.mod_lt _ (Nat.pos_of_ne_zero hn)
  | leastFirst hload =>
    obtain ⟨hlt, -⟩ := List.getElem?_eq_some_iff.1 hload
    exact inRange_scan (by omega)
  | less => exact inRange_scan hpc.1
  | tie =>
    refine inRange_scan ?_
    split_ifs
    · exact hpc.1
    · exact hpc.2
  | more => exact inRange_scan hpc.2
  | p2cDraw hi hj =>
    refine ⟨hi, ?_⟩
    split_ifs <;> omega
  | p2cOther => exact hpc
  | p2cOwn =>
    split_ifs
    · exact hpc.2
    · exact hpc.1
  | pickTotal => exact hpc
  | pickInflight => exact hpc
  | release => trivial
  | statsLoad => split_ifs <;> exact hpc
  | statsSub => exact hpc
  | statsInflight =>
    refine inRange_stats ?_
    rw [List.length_append]
    exact hpc

theorem shape_new (kind : Kind) (addrs : List String) : Shape addrs (Sys.new kind addrs) :=
  ⟨rfl, by simp [Sys.new, Selector.new, Counters.new], by simp [Sys.new, Selector.new, Counters.new], nofun⟩

theorem Shape.come (h : Shape addrs s) (hpc : pc.InRange addrs.length) : Shape addrs ⟨s.shared, s.tasks ++ [pc]⟩ := by
  exact ⟨h.addrs_eq, h.total, h.inflight, forall_mem_concat h.inRange hpc⟩

theorem Shape.run {k : ℕ} (h : Shape addrs s) (hk : s.tasks[k]? = some pc) (ha : Acted asToken s.shared pc a sel pc') :
    Shape addrs ⟨sel, s.tasks.set k pc'⟩ := by
  obtain ⟨haddrs, htotal, hinflight, hrange⟩ := h
  obtain ⟨h1, h2, h3⟩ := ha.counters
  refine ⟨h1.trans haddrs, h2.trans htotal, h3.trans hinflight, forall_mem_set hrange ?_ k⟩
  rw [← haddrs] at hrange hinflight ⊢
  exact ha.inRange (hrange pc (List.mem_of_getElem? hk)) hinflight

theorem busy_scan : (scan n i best bestLoad ties).busy = 1 := by
  unfold scan
  split_ifs <;> rfl

theorem busy_stats (reset : Bool) (snap : List UpstreamStat) : (stats n reset snap).busy = 0 := by
  unfold stats
  split_ifs <;> rfl

theorem load_of_getElem? {xs : List ℤ} {v : ℤ} (h : xs[i]? = some v) : load xs i = v := by
  rw [load, List.getD_eq_getElem?_getD, h, Option.getD_some]

theorem load_replicate (n i : ℕ) : load (List.replicate n 0) i = 0 := by
  rw [load, List.getD_eq_getElem?_getD, List.getElem?_replicate]
  split_ifs <;> rfl

theorem load_new (i : ℕ) : load (Counters.new addrs).inflight i = 0 := load_replicate addrs.length i

end Shape

end ServiceProxy.Upstream.Selectors
