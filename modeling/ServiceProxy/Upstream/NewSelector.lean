import ServiceProxy.Upstream.RoundRobin
import ServiceProxy.Upstream.Wrapping

/-!
# `new_selector` of `upstream/balancer.rs`

Which selector is built for a strategy, and when its `next` panics.  Each of the counting selectors needs a number of
upstreams (`Kind.needs`) that nothing checks: `LeastConn` and the round-robins need one, `P2C` two, the second draw being from
`0..n - 1`.

* `Pc.Panics` — the places of a call of `next` where the code panics;
* `neverPanics_newSelector` — **when `next` never panics**, in any interleaving and from any counters.
-/

namespace ServiceProxy.Upstream

open ServiceProxy.Lib ServiceProxy.Upstream.Selectors

/-! ## The code -/

/-- `LB_ROUND_ROBIN`. -/
def lbRoundRobin : String := "round-robin"

/-- `LB_LEAST_CONN`. -/
def lbLeastConn : String := "least-conn"

/-- `LB_P2C`. -/
def lbP2c : String := "p2c"

/-- `enum SelectorKind`; `counting` are the last three of its variants. -/
inductive SelectorKind
  | fixed (addr : String)
  | roundRobin (s : RoundRobin)
  | counting (s : Selector)
  deriving DecidableEq, Repr

/-- `new_selector`. -/
def newSelector (addrs : List String) (strategy : String) : SelectorKind :=
  if strategy = lbRoundRobin then .counting (Selector.new .countingRoundRobin addrs)
  else if strategy = lbLeastConn then .counting (Selector.new .leastConn addrs)
  else if strategy = lbP2c then .counting (Selector.new .p2c addrs)
  else
    match addrs with
    | [addr] => .fixed addr
    | addrs => .roundRobin (RoundRobin.new addrs)

namespace Selectors

/-- A call of `next` panics at its next operation: the remainder by zero, an index out of range, or a draw from an empty
range. -/
def Pc.Panics (c : Counters) : Pc → Prop
  | .roundRobin => c.addrs.length = 0
  | .leastFirst => c.inflight.length ≤ 0
  | .leastScan i .. => c.inflight.length ≤ i
  | .p2cDraw => c.addrs.length = 0 ∨ c.addrs.length - 1 = 0
  | .p2cOther _ j => c.inflight.length ≤ j
  | .p2cOwn i _ _ => c.inflight.length ≤ i
  | .pickTotal idx _ => c.total.length ≤ idx
  | .pickInflight idx _ => c.inflight.length ≤ idx ∨ c.addrs.length ≤ idx
  | _ => False

/-- The number of upstreams that `next` needs. -/
def Kind.needs : Kind → ℕ
  | .p2c => 2
  | .countingRoundRobin | .leastConn => 1

end Selectors

/-- `next` never panics: whatever the counters are and whatever is drawn, in any interleaving of calls. -/
def NeverPanics : SelectorKind → Prop
  | .fixed _ => True
  | .roundRobin s => ∀ counter es t, Run RoundRobin.step Any ⟨{ s with counter }, []⟩ es t →
      ∀ pc ∈ t.tasks, pc.busy = 1 → (t.shared.act pc ()).isSome
  | .counting s => ∀ total inflight counter es t, total.length = s.counters.addrs.length →
      inflight.length = s.counters.addrs.length →
      Run (step64 asI32) Any ⟨{ s with counters := { s.counters with total, inflight }, counter }, []⟩ es t →
      ∀ pc ∈ t.tasks, ¬ pc.Panics t.shared.counters

/-! ## The counting selectors -/

namespace Selectors

variable {asToken : ℕ → ℤ} {addrs : List String} {kind : Kind} {s t : Sys} {sel sel' : Selector} {pc pc' : Pc} {a : Act}
  {e : Ev}

theorem panics_next_iff {c : Counters} (hlen : c.inflight.length = c.addrs.length) (kind : Kind) :
    kind.next.Panics c ↔ c.addrs.length < kind.needs := by
  cases kind with
  | countingRoundRobin => simp only [Kind.next, Pc.Panics, Kind.needs]; omega
  | leastConn => simp only [Kind.next, Pc.Panics, Kind.needs]; omega
  | p2c => simp only [Kind.next, Pc.Panics, Kind.needs]; omega

theorem scan_ne_draw {n i best ties : ℕ} {l : ℤ} : scan n i best l ties ≠ .p2cDraw := by
  unfold scan
  split_ifs <;> simp

theorem stats_ne_draw {n : ℕ} {reset : Bool} {snap : List UpstreamStat} : stats n reset snap ≠ .p2cDraw := by
  unfold stats
  split_ifs <;> simp

theorem Acted.ne_draw (h : Acted asToken sel pc a sel' pc') : pc' ≠ .p2cDraw ∧ sel'.kind = sel.kind := by
  cases h with
  | leastFirst | less | tie | more => exact ⟨scan_ne_draw, rfl⟩
  | statsInflight => exact ⟨stats_ne_draw, rfl⟩
  | statsLoad | p2cOwn =>
    refine ⟨?_, rfl⟩
    split_ifs <;> simp
  | _ => exact ⟨by simp, rfl⟩

/-- **The invariant**: the shape, and only a call of `P2C` draws. -/
structure Usable (kind : Kind) (addrs : List String) (s : Sys) : Prop where
  shape : Shape addrs s
  kind_eq : s.shared.kind = kind
  draws : .p2cDraw ∈ s.tasks → kind = .p2c

theorem usable_step (h : Usable kind addrs s) (hs : step64 asToken s e = some t) : Usable kind addrs t := by
  have hshape := shape_step64 h.shape hs
  cases stepped64_of_step64 hs with
  | next =>
    refine ⟨hshape, h.kind_eq, fun hmem => ?_⟩
    rcases List.mem_append.1 hmem with hmem | hmem
    · exact h.draws hmem
    · rw [h.kind_eq, List.mem_singleton] at hmem
      cases kind with
      | p2c => rfl
      | _ => cases hmem
  | stats =>
    refine ⟨hshape, h.kind_eq, fun hmem => ?_⟩
    rcases List.mem_append.1 hmem with hmem | hmem
    · exact h.draws hmem
    · exact absurd (List.mem_singleton.1 hmem).symm stats_ne_draw
  | run hk ha =>
    obtain ⟨hne, hkind⟩ := ha.ne_draw
    refine ⟨hshape, hkind.trans h.kind_eq, fun hmem => ?_⟩
    rcases List.mem_or_eq_of_mem_set hmem with hmem | heq
    · exact h.draws hmem
    · exact absurd heq.symm hne

theorem usable_run {total inflight : List ℤ} {counter : ℕ} {es : List Ev} (htotal : total.length = addrs.length)
    (hinflight : inflight.length = addrs.length)
    (hrun : Run (step64 asToken) Any ⟨{ Selector.new kind addrs with
      counters := { (Selector.new kind addrs).counters with total, inflight }, counter }, []⟩ es t) : Usable kind addrs t := by
  refine hrun.invariant ?_ fun u e v hu _ hs => usable_step hu hs
  exact ⟨⟨rfl, htotal, hinflight, fun _ h => absurd h List.not_mem_nil⟩, rfl, fun h => absurd h List.not_mem_nil⟩

/-- With enough upstreams no call panics. -/
theorem Usable.not_panics (h : Usable kind addrs s) (hn : kind.needs ≤ addrs.length) (hpc : pc ∈ s.tasks) :
    ¬ pc.Panics s.shared.counters := by
  obtain ⟨haddrs, htotal, hinflight, hrange⟩ := h.shape
  have hin := hrange pc hpc
  have hone : 1 ≤ kind.needs := by cases kind <;> simp [Kind.needs]
  cases pc with
  | p2cDraw =>
    obtain rfl := h.draws hpc
    simp only [Pc.Panics, haddrs, Kind.needs] at hn ⊢
    omega
  | leastScan | p2cOther | p2cOwn =>
    obtain ⟨h1, h2⟩ := hin
    simp only [Pc.Panics, hinflight]
    omega
  | pickTotal | pickInflight =>
    simp only [Pc.InRange] at hin
    simp only [Pc.Panics, hinflight, htotal, haddrs]
    omega
  | roundRobin | leastFirst =>
    simp only [Pc.Panics, hinflight, haddrs]
    omega
  | _ => exact id

end Selectors

/-- **A counting selector never panics exactly if it has the upstreams it needs.** -/
theorem neverPanics_counting (kind : Kind) (addrs : List String) :
    NeverPanics (.counting (Selector.new kind addrs)) ↔ kind.needs ≤ addrs.length := by
  constructor
  · intro h
    by_contra hfew
    have hzero : (List.replicate addrs.length (0 : ℤ)).length = addrs.length := List.length_replicate
    have hrun : Run (step64 asI32) Any ⟨Selector.new kind addrs, []⟩ [.next] ⟨Selector.new kind addrs, [kind.next]⟩ :=
      .one trivial rfl
    refine h _ _ 0 _ _ hzero hzero hrun kind.next List.mem_cons_self ?_
    exact (panics_next_iff hzero kind).2 (Nat.not_le.1 hfew)
  · intro hn total inflight counter es t htotal hinflight hrun pc hpc
    exact (usable_run htotal hinflight hrun).not_panics hn hpc

/-! ## `RoundRobin` -/

theorem RoundRobin.addrs_step {addrs : List String} {s t : RoundRobin.Sys} {e : RoundRobin.Ev} (h : s.shared.addrs = addrs)
    (hs : RoundRobin.step s e = some t) : t.shared.addrs = addrs := by
  cases e with
  | next =>
    obtain rfl : _ = t := by simpa [RoundRobin.step] using hs
    exact h
  | release token =>
    obtain rfl : s = t := by simpa [RoundRobin.step] using hs
    exact h
  | run k =>
    obtain ⟨pc, rr, pc', -, ha, rfl⟩ := runLocal_eq_some hs
    cases pc with
    | fetch =>
      obtain ⟨rfl, -⟩ := Prod.mk.inj (Option.some.inj ha)
      exact h
    | index i =>
      simp only [RoundRobin.act, Option.ite_none_left_eq_some] at ha
      obtain ⟨addr, -, heq⟩ := Option.map_eq_some_iff.1 ha.2
      obtain ⟨rfl, -⟩ := Prod.mk.inj heq
      exact h
    | held => cases ha

/-- **`RoundRobin` never panics exactly if it has an upstream.** -/
theorem neverPanics_roundRobin (addrs : List String) :
    NeverPanics (.roundRobin (RoundRobin.new addrs)) ↔ 1 ≤ addrs.length := by
  constructor
  · intro h
    by_contra hfew
    obtain rfl : addrs = [] := List.length_eq_zero_iff.1 (by omega)
    have hrun : Run RoundRobin.step Any ⟨RoundRobin.new [], []⟩ [.next, .run 0] ⟨⟨[], 1⟩, [.index 0]⟩ :=
      (Run.one trivial rfl).snoc trivial rfl
    have hsome := h 0 _ _ hrun (.index 0) List.mem_cons_self rfl
    cases hsome
  · intro hn counter es t hrun pc hpc hbusy
    have haddrs : t.shared.addrs = addrs :=
      hrun.invariant (I := fun t => t.shared.addrs = addrs) rfl fun u e v hu _ hs => RoundRobin.addrs_step hu hs
    cases pc with
    | fetch => rfl
    | index i =>
      have hlt : i % addrs.length < addrs.length := Nat.mod_lt i hn
      rw [RoundRobin.act, haddrs, if_neg (by omega), List.getElem?_eq_getElem hlt]
      rfl
    | held => cases hbusy

/-! ## All selectors -/

/-- **When `next` never panics**: there is an upstream, and there are two of them if the strategy is `p2c`. -/
theorem neverPanics_newSelector (addrs : List String) (strategy : String) :
    NeverPanics (newSelector addrs strategy) ↔ 1 ≤ addrs.length ∧ (strategy = lbP2c → 2 ≤ addrs.length) := by
  unfold newSelector
  by_cases hrr : strategy = lbRoundRobin
  · rw [if_pos hrr, neverPanics_counting, hrr]
    simp [Kind.needs, lbRoundRobin, lbP2c]
  · rw [if_neg hrr]
    by_cases hlc : strategy = lbLeastConn
    · rw [if_pos hlc, neverPanics_counting, hlc]
      simp [Kind.needs, lbLeastConn, lbP2c]
    · rw [if_neg hlc]
      by_cases hp2c : strategy = lbP2c
      · rw [if_pos hp2c, neverPanics_counting]
        simp only [Kind.needs, hp2c, forall_const]
        omega
      · rw [if_neg hp2c]
        have hiff : (1 ≤ addrs.length ∧ (strategy = lbP2c → 2 ≤ addrs.length)) ↔ 1 ≤ addrs.length :=
          and_iff_left fun h => absurd h hp2c
        rw [hiff]
        split
        · exact iff_of_true trivial (Nat.le_refl 1)
        · exact neverPanics_roundRobin addrs

end ServiceProxy.Upstream
