import ServiceProxy.Lib.Sampling
import ServiceProxy.Upstream.Wrapping

/-!
# What `LeastConn::next` picks

A call of `LeastConn::next` that runs alone, its draws independent and uniform, is a distribution (`alone`).  It picks an
upstream of the least load, each of these with the same probability: after `i` loads, `best` is uniform on the upstreams of
the least load so far, and `ties` is their number (`alone_scan`).

The token is an `i32`, so an upstream whose number is `2 ^ 31` or more is picked, but is not what is returned.
-/

namespace ServiceProxy.Upstream.Selectors

open ServiceProxy.Lib

/-! ## The code -/

/-- The next operation of a call of `LeastConn::next`: a tie draws `random_range(0..ties)`, with `ties` already counted. -/
noncomputable def draw (s : Selector) : Pc → PMF Act
  | .leastFirst => PMF.pure (.load false)
  | .leastScan i _ bestLoad ties =>
    if s.counters.inflight[i]? = some bestLoad then (coin ties).map .load else PMF.pure (.load false)
  | _ => PMF.pure .fetchAdd

/-- A call that runs alone, for at most `fuel` operations; `none` if it panics. -/
noncomputable def alone (asToken : ℕ → ℤ) : ℕ → Selector → Pc → PMF (Option (Selector × Pc))
  | 0, s, pc => PMF.pure (some (s, pc))
  | fuel + 1, s, pc =>
    if pc.busy = 0 then PMF.pure (some (s, pc))
    else (draw s pc).bind fun a => (act64 asToken s pc a).elim (PMF.pure none) fun r => alone asToken fuel r.1 r.2

/-- `LeastConn::next`. -/
noncomputable def leastConnNext (asToken : ℕ → ℤ) (fuel : ℕ) (s : Selector) : PMF (Option (Counters × String × ℤ)) :=
  (alone asToken fuel s .leastFirst).map fun r => r.bind returned

/-! ## The least loads -/

def minima (n : ℕ) (xs : List ℤ) : Finset ℕ := {k ∈ Finset.range n | ∀ m < n, load xs k ≤ load xs m}

/-- The upstreams before `i` whose load is `l`. -/
def tied (xs : List ℤ) (i : ℕ) (l : ℤ) : Finset ℕ := {k ∈ Finset.range i | load xs k = l}

/-- The least load of the upstreams before `i`. -/
structure Least (xs : List ℤ) (i : ℕ) (l : ℤ) : Prop where
  le : ∀ m < i, l ≤ load xs m
  attained : (tied xs i l).Nonempty

section Least

variable {xs : List ℤ} {i n : ℕ} {l v : ℤ}

theorem mem_tied {k : ℕ} : k ∈ tied xs i l ↔ k < i ∧ load xs k = l := by simp [tied]

theorem mem_minima {k : ℕ} : k ∈ minima n xs ↔ k < n ∧ ∀ m < n, load xs k ≤ load xs m := by simp [minima]

theorem least_one (h : load xs 0 = l) : Least xs 1 l := by
  refine ⟨fun m hm => ?_, 0, mem_tied.2 ⟨by omega, h⟩⟩
  obtain rfl : m = 0 := by omega
  omega

theorem tied_one (h : load xs 0 = l) : tied xs 1 l = {0} := by
  ext k
  rw [mem_tied, Finset.mem_singleton]
  constructor
  · rintro ⟨hk, -⟩
    omega
  · rintro rfl
    exact ⟨by omega, h⟩

theorem Least.minima_eq (h : Least xs n l) : minima n xs = tied xs n l := by
  obtain ⟨best, hbest⟩ := h.attained
  obtain ⟨hlt, hload⟩ := mem_tied.1 hbest
  ext k
  rw [mem_minima, mem_tied]
  constructor
  · rintro ⟨hk, hmin⟩
    have h1 := hmin best hlt
    have h2 := h.le k hk
    exact ⟨hk, by omega⟩
  · rintro ⟨hk, rfl⟩
    exact ⟨hk, h.le⟩

theorem Least.tied_less (h : Least xs i l) (hv : load xs i < l) : tied xs (i + 1) (load xs i) = {i} := by
  ext k
  rw [mem_tied, Finset.mem_singleton]
  constructor
  · rintro ⟨hk, heq⟩
    by_contra hne
    have := h.le k (by omega)
    omega
  · rintro rfl
    exact ⟨by omega, rfl⟩

theorem Least.less (h : Least xs i l) (hv : load xs i < l) : Least xs (i + 1) (load xs i) := by
  refine ⟨fun m hm => ?_, by rw [h.tied_less hv]; exact Finset.singleton_nonempty i⟩
  by_cases hmi : m = i
  · rw [hmi]
  · have := h.le m (by omega)
    omega

theorem tied_tie (hv : load xs i = l) : tied xs (i + 1) l = insert i (tied xs i l) := by
  ext k
  rw [Finset.mem_insert, mem_tied, mem_tied]
  constructor
  · rintro ⟨hk, heq⟩
    by_cases hki : k = i
    · exact .inl hki
    · exact .inr ⟨by omega, heq⟩
  · rintro (rfl | ⟨hk, heq⟩)
    · exact ⟨by omega, hv⟩
    · exact ⟨by omega, heq⟩

theorem notMem_tied : i ∉ tied xs i l := by
  rw [mem_tied]
  omega

theorem Least.tie (h : Least xs i l) (hv : load xs i = l) : Least xs (i + 1) l := by
  refine ⟨fun m hm => ?_, by rw [tied_tie hv]; exact Finset.insert_nonempty i _⟩
  by_cases hmi : m = i
  · rw [hmi, hv]
  · exact h.le m (by omega)

theorem tied_more (hv : l < load xs i) : tied xs (i + 1) l = tied xs i l := by
  ext k
  rw [mem_tied, mem_tied]
  constructor
  · rintro ⟨hk, heq⟩
    have hki : k ≠ i := by
      rintro rfl
      omega
    exact ⟨by omega, heq⟩
  · rintro ⟨hk, heq⟩
    exact ⟨by omega, heq⟩

theorem Least.more (h : Least xs i l) (hv : l < load xs i) : Least xs (i + 1) l := by
  refine ⟨fun m hm => ?_, by rw [tied_more hv]; exact h.attained⟩
  by_cases hmi : m = i
  · rw [hmi]
    omega
  · exact h.le m (by omega)

end Least

/-! ## A call that runs alone -/

section Alone

variable {asToken : ℕ → ℤ} {s s' : Selector} {pc pc' : Pc} {a : Act} {i best ties fuel idx : ℕ} {l v seen : ℤ}

theorem alone_succ (hbusy : pc.busy = 1) (hdraw : draw s pc = PMF.pure a) (hact : act64 asToken s pc a = some (s', pc')) :
    alone asToken (fuel + 1) s pc = alone asToken fuel s' pc' := by
  rw [alone, if_neg (by omega), hdraw, PMF.pure_bind, hact]
  rfl

theorem alone_first (hs : s.Valid) (hload : s.counters.inflight[0]? = some v) :
    alone asToken (fuel + 1) s .leastFirst = alone asToken fuel s (scan s.counters.addrs.length 1 0 v 1) := by
  have hact : act asToken s .leastFirst (.load false) = some (s, scan s.counters.addrs.length 1 0 v 1) := by
    simp only [act, hload]
  exact alone_succ rfl rfl (act64_of_act hs hact)

theorem alone_less (hs : s.Valid) (hload : s.counters.inflight[i]? = some v) (hv : v < l) :
    alone asToken (fuel + 1) s (.leastScan i best l ties) =
      alone asToken fuel s (scan s.counters.addrs.length (i + 1) i v 1) := by
  have hact : act asToken s (.leastScan i best l ties) (.load false) =
      some (s, scan s.counters.addrs.length (i + 1) i v 1) := by
    simp only [act, hload, if_pos hv]
  refine alone_succ rfl ?_ (act64_of_act hs hact)
  rw [draw, hload, if_neg]
  rintro ⟨rfl⟩
  omega

theorem alone_more (hs : s.Valid) (hload : s.counters.inflight[i]? = some v) (hv : l < v) :
    alone asToken (fuel + 1) s (.leastScan i best l ties) =
      alone asToken fuel s (scan s.counters.addrs.length (i + 1) best l ties) := by
  have hact : act asToken s (.leastScan i best l ties) (.load false) =
      some (s, scan s.counters.addrs.length (i + 1) best l ties) := by
    simp only [act, hload, if_neg (show ¬ v < l by omega), if_neg (show v ≠ l by omega)]
  refine alone_succ rfl ?_ (act64_of_act hs hact)
  rw [draw, hload, if_neg]
  rintro ⟨rfl⟩
  omega

theorem alone_tie (hs : s.Valid) (hload : s.counters.inflight[i]? = some l) :
    alone asToken (fuel + 1) s (.leastScan i best l ties) = ((coin ties).map fun tie => if tie then i else best).bind
      fun b => alone asToken fuel s (scan s.counters.addrs.length (i + 1) b l (ties + 1)) := by
  have hact : ∀ tie, act64 asToken s (.leastScan i best l ties) (.load tie) =
      some (s, scan s.counters.addrs.length (i + 1) (if tie then i else best) l (ties + 1)) := by
    intro tie
    apply act64_of_act hs
    simp only [act, hload, if_neg (Int.lt_irrefl l), if_pos]
  have hbusy : (Pc.leastScan i best l ties).busy ≠ 0 := Nat.one_ne_zero
  rw [alone, if_neg hbusy, draw, if_pos hload, PMF.bind_map, PMF.bind_map]
  congr 1
  funext tie
  rw [Function.comp_apply, hact tie]
  rfl

theorem alone_pick (hs : s.Valid) :
    alone asToken (fuel + 2) s (.pickTotal idx seen) = PMF.pure (some (s.picked idx, .held idx (asToken idx))) := by
  obtain ⟨mid, htotal, hinflight⟩ := pick_alone asToken hs idx seen
  rw [alone_succ rfl rfl htotal, alone_succ rfl rfl hinflight]
  cases fuel <;> rfl

theorem uniformOfFinset_congr {S T : Finset ℕ} (h : S = T) (hS : S.Nonempty) (hT : T.Nonempty) :
    PMF.uniformOfFinset S hS = PMF.uniformOfFinset T hT := by
  subst h
  rfl

/-- **The invariant of the scan.**  After `i` loads, `best` is uniform on the upstreams of the least load so far, and `ties`
is their number; so the call picks uniformly from those of the least load of all. -/
theorem alone_scan (asToken : ℕ → ℤ) (hs : s.Valid) (hmin : (minima s.counters.addrs.length s.counters.inflight).Nonempty) (left : ℕ) :
    ∀ {i fuel : ℕ} {l : ℤ} (h : Least s.counters.inflight i l), i + left = s.counters.addrs.length → left + 2 ≤ fuel →
      ((PMF.uniformOfFinset (tied s.counters.inflight i l) h.attained).bind fun best => alone asToken fuel s
        (scan s.counters.addrs.length i best l (tied s.counters.inflight i l).card)) =
      (PMF.uniformOfFinset _ hmin).map fun k => some (s.picked k, .held k (asToken k)) := by
  induction left with
  | zero =>
    intro i fuel l h hi hfuel
    obtain rfl : i = s.counters.addrs.length := by omega
    obtain ⟨fuel, rfl⟩ := Nat.exists_eq_add_of_le' hfuel
    have hpick : ∀ best, alone asToken (fuel + 2) s (scan s.counters.addrs.length s.counters.addrs.length best l
        (tied s.counters.inflight s.counters.addrs.length l).card) =
          PMF.pure (some (s.picked best, .held best (asToken best))) := by
      intro best
      rw [scan, if_neg (Nat.lt_irrefl _), alone_pick hs]
    simp only [hpick]
    rw [uniformOfFinset_congr h.minima_eq hmin h.attained]
    rfl
  | succ left ih =>
    intro i fuel l h hi hfuel
    obtain ⟨fuel, rfl⟩ : ∃ f, fuel = f + 1 := ⟨fuel - 1, by omega⟩
    have hlt : i < s.counters.addrs.length := by omega
    have hload := getElem?_load hs hlt
    simp only [scan, if_pos hlt]
    rcases lt_trichotomy (load s.counters.inflight i) l with hv | hv | hv
    · -- a smaller load: the choice starts anew
      have hnext := ih (h.less hv) (by omega) (show left + 2 ≤ fuel by omega)
      simp only [alone_less hs hload hv, PMF.bind_const]
      rw [← hnext, uniformOfFinset_congr (h.tied_less hv) _ (Finset.singleton_nonempty i), uniformOfFinset_singleton,
        PMF.pure_bind, h.tied_less hv, Finset.card_singleton]
    · -- a tie: one step of the reservoir
      have hnext := ih (h.tie hv) (by omega) (show left + 2 ≤ fuel by omega)
      have hcard : (tied s.counters.inflight (i + 1) l).card = (tied s.counters.inflight i l).card + 1 := by
        rw [tied_tie hv, Finset.card_insert_of_notMem notMem_tied]
      rw [hv] at hload
      simp only [alone_tie hs hload]
      rw [← hnext, ← PMF.bind_bind, bind_coin h.attained notMem_tied, hcard,
        uniformOfFinset_congr (tied_tie hv).symm _ (h.tie hv).attained]
    · have hnext := ih (h.more hv) (by omega) (show left + 2 ≤ fuel by omega)
      simp only [alone_more hs hload hv]
      rw [← hnext, uniformOfFinset_congr (tied_more hv) _ h.attained, tied_more hv]

end Alone

/-! ## What is returned -/

/-- **A uniformly random minimum**: a call counts and returns an upstream of the least load, and each of these as often. -/
structure PicksMinimum (asToken : ℕ → ℤ) (fuel : ℕ) (s : Selector) : Prop where
  minimal : ∀ r ∈ (leastConnNext asToken fuel s).support, ∃ k ∈ minima s.counters.addrs.length s.counters.inflight,
    ∃ addr, s.counters.addrs[k]? = some addr ∧ r = some (s.counters.pick k, addr, (k : ℤ))
  uniform : ∀ k ∈ minima s.counters.addrs.length s.counters.inflight, ∀ addr, s.counters.addrs[k]? = some addr →
    leastConnNext asToken fuel s (some (s.counters.pick k, addr, (k : ℤ))) =
      (((minima s.counters.addrs.length s.counters.inflight).card : ℕ) : ENNReal)⁻¹

section Returned

variable {asToken : ℕ → ℤ} {s : Selector} {fuel k n : ℕ} {xs : List ℤ}

theorem minima_nonempty (hn : 0 < n) : (minima n xs).Nonempty := by
  obtain ⟨k, hk, hmin⟩ := Finset.exists_min_image (Finset.range n) (load xs) ⟨0, by simpa using hn⟩
  refine ⟨k, mem_minima.2 ⟨Finset.mem_range.1 hk, fun m hm => ?_⟩⟩
  exact hmin m (Finset.mem_range.2 hm)

/-- **The distribution of `LeastConn::next`.** -/
theorem leastConnNext_eq (hs : s.Valid) (hn : 0 < s.counters.addrs.length) (hfuel : s.counters.addrs.length + 2 ≤ fuel) :
    leastConnNext asToken fuel s = (PMF.uniformOfFinset (minima s.counters.addrs.length s.counters.inflight)
      (minima_nonempty hn)).map (outcome asToken s) := by
  obtain ⟨fuel, rfl⟩ : ∃ f, fuel = f + 1 := ⟨fuel - 1, by omega⟩
  have hload := getElem?_load hs hn
  have hzero := load_of_getElem? hload
  have hscan := alone_scan asToken hs (minima_nonempty hn) (s.counters.addrs.length - 1) (least_one hzero)
    (by omega) (show _ ≤ fuel by omega)
  rw [uniformOfFinset_congr (tied_one hzero) _ (Finset.singleton_nonempty 0), uniformOfFinset_singleton, PMF.pure_bind,
    tied_one hzero, Finset.card_singleton] at hscan
  rw [leastConnNext, alone_first hs hload, hscan, PMF.map_comp]
  rfl

/-- If the numbers of upstreams are returned, those of the least load are `i32`s. -/
theorem PicksMinimum.lt (h : PicksMinimum asI32 fuel s) (hs : s.Valid) (hn : 0 < s.counters.addrs.length)
    (hfuel : s.counters.addrs.length + 2 ≤ fuel) (hk : k ∈ minima s.counters.addrs.length s.counters.inflight) :
    k < 2 ^ 31 := by
  obtain ⟨hlt, -⟩ := mem_minima.1 hk
  have hmem : outcome asI32 s k ∈ (leastConnNext asI32 fuel s).support := by
    rw [leastConnNext_eq hs hn hfuel]
    exact (PMF.mem_support_map_iff ..).2 ⟨k, (PMF.mem_support_uniformOfFinset_iff ..).2 hk, rfl⟩
  obtain ⟨k', -, addr, haddr, heq⟩ := h.minimal _ hmem
  rw [outcome, List.getElem?_eq_getElem hlt, Option.map_some, Option.some.injEq] at heq
  obtain ⟨hpick, htoken⟩ := Prod.mk.inj heq
  rw [← hs.total_length] at hlt
  -- the counters say which upstream it is, and its token is not its number
  obtain rfl := Counters.pick_injective hlt hpick
  have hrange := Int.bmod_lt (x := k) (m := 2 ^ 32) (by omega)
  have htoken : asI32 k = k := (Prod.mk.inj htoken).2
  unfold asI32 at htoken
  omega

/-- **`LeastConn::next` picks a uniformly random minimum** exactly if the number of every upstream of the least load is an
`i32`. -/
theorem picksMinimum_iff (hs : s.Valid) (hn : 0 < s.counters.addrs.length) (hfuel : s.counters.addrs.length + 2 ≤ fuel) :
    PicksMinimum asI32 fuel s ↔ ∀ k ∈ minima s.counters.addrs.length s.counters.inflight, k < 2 ^ 31 := by
  constructor
  · intro h k hk
    exact h.lt hs hn hfuel hk
  · intro hsmall
    have hout : ∀ k ∈ minima s.counters.addrs.length s.counters.inflight, ∀ addr, s.counters.addrs[k]? = some addr →
        outcome asI32 s k = some (s.counters.pick k, addr, (k : ℤ)) := by
      intro k hk addr haddr
      rw [outcome, haddr, Option.map_some, asI32_eq (hsmall k hk)]
    refine ⟨fun r hr => ?_, fun k hk addr haddr => ?_⟩
    · rw [leastConnNext_eq hs hn hfuel] at hr
      obtain ⟨k, hk, rfl⟩ := (PMF.mem_support_map_iff ..).1 hr
      rw [PMF.mem_support_uniformOfFinset_iff] at hk
      have haddr := List.getElem?_eq_getElem (mem_minima.1 hk).1
      exact ⟨k, hk, _, haddr, hout k hk _ haddr⟩
    · rw [leastConnNext_eq hs hn hfuel, ← hout k hk addr haddr, PMF.map_apply, tsum_eq_single k]
      · rw [if_pos rfl, PMF.uniformOfFinset_apply_of_mem _ hk]
      · intro j hj
        rw [if_neg]
        intro heq
        exact hj (outcome_injective hs (mem_minima.1 hk).1 (congrArg (Option.map Prod.fst) heq)).symm

end Returned

/-- Three upstreams, the last two of them idle. -/
def busyFirst : Selector := ⟨.leastConn, ⟨["a", "b", "c"], [7, 2, 5], [1, 0, 0]⟩, 0, []⟩

theorem busyFirst_valid : busyFirst.Valid := by
  refine ⟨rfl, rfl, ?_, ?_⟩ <;> simp [busyFirst, IsI64]

theorem picksMinimum_busyFirst : busyFirst.Valid ∧ PicksMinimum asI32 5 busyFirst := by
  refine ⟨busyFirst_valid, (picksMinimum_iff busyFirst_valid ?_ ?_).2 ?_⟩
  · exact Nat.succ_pos 2
  · exact Nat.le_refl 5
  · decide

/-- **The counter-example.**  A new selector over `2 ^ 31 + 1` upstreams: the last one is picked if the last draw is `0`, and
its token is negative. -/
theorem long_list_not_picksMinimum :
    ¬ ∀ (fuel : ℕ) (s : Selector), s.Valid → 0 < s.counters.addrs.length → s.counters.addrs.length + 2 ≤ fuel →
      PicksMinimum asI32 fuel s := by
  intro h
  have hlen : (List.replicate (2 ^ 31 + 1) "a").length = 2 ^ 31 + 1 := List.length_replicate
  have hvalid := valid_new .leastConn (List.replicate (2 ^ 31 + 1) "a")
  have hpos : 0 < (List.replicate (2 ^ 31 + 1) "a").length := by
    rw [hlen]
    omega
  have hpicks := h _ _ hvalid hpos (Nat.le_refl _)
  have hlast : 2 ^ 31 ∈ minima (List.replicate (2 ^ 31 + 1) "a").length
      (Counters.new (List.replicate (2 ^ 31 + 1) "a")).inflight := by
    refine mem_minima.2 ⟨by rw [hlen]; omega, fun m _ => ?_⟩
    rw [load_new, load_new]
  exact Nat.lt_irrefl _ (hpicks.lt hvalid hpos (Nat.le_refl _) hlast)

end ServiceProxy.Upstream.Selectors
