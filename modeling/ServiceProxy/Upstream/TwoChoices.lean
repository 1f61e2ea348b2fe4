import ServiceProxy.Lib.Sampling
import ServiceProxy.Upstream.Wrapping

/-!
# What `P2C::next` picks

A call of `P2C::next` that runs alone is a function of its two draws (`p2cNext`).  The upstreams it compares are two distinct
ones, every pair of them for one outcome of the draws, and it picks the less loaded one; how often `k` is picked, of the
`n * (n - 1)` outcomes, is then counted (`card_wins`).

The token is an `i32`, so an upstream whose number is `2 ^ 31` or more is picked, but is not what is returned.
-/

namespace ServiceProxy.Upstream.Selectors

open ServiceProxy.Lib

/-! ## The code -/

/-- The operations of a call that runs alone; `none` if it panics. -/
def follow (asToken : ℕ → ℤ) : Selector → Pc → List Act → Option (Selector × Pc)
  | s, pc, [] => some (s, pc)
  | s, pc, a :: as => (act64 asToken s pc a).bind fun r => follow asToken r.1 r.2 as

/-- `P2C::next`, when the draws are `i` and `j`. -/
def p2cNext (asToken : ℕ → ℤ) (s : Selector) (i j : ℕ) : Option (Counters × String × ℤ) :=
  (follow asToken s .p2cDraw [.random i j, .load false, .load false, .fetchAdd, .fetchAdd]).bind returned

/-- The outcomes of the draws for which the upstream `k` is counted, and its address and number are returned. -/
def chosen (asToken : ℕ → ℤ) (s : Selector) (k : ℕ) : Finset (ℕ × ℕ) :=
  {p ∈ draws s.counters.addrs.length | p2cNext asToken s p.1 p.2 = outcome Nat.cast s k}

/-- **The choice of `P2C::next`**, over all outcomes of its draws. -/
structure PicksByLoad (asToken : ℕ → ℤ) (s : Selector) : Prop where
  distinct : ∀ p ∈ draws s.counters.addrs.length, ∃ a b, a < s.counters.addrs.length ∧ b < s.counters.addrs.length ∧
    a ≠ b ∧ act64 asToken s .p2cDraw (.random p.1 p.2) = some (s, .p2cOther a b)
  once : ∀ a < s.counters.addrs.length, ∀ b < s.counters.addrs.length, a ≠ b → ∃! p, p ∈ draws s.counters.addrs.length ∧
    act64 asToken s .p2cDraw (.random p.1 p.2) = some (s, .p2cOther a b)
  count : ∀ k < s.counters.addrs.length, (chosen asToken s k).card =
    2 * Finset.card {m ∈ Finset.range s.counters.addrs.length | load s.counters.inflight k < load s.counters.inflight m} +
      Finset.card {m ∈ Finset.range s.counters.addrs.length |
        m ≠ k ∧ load s.counters.inflight m = load s.counters.inflight k}
  never : ∀ k < s.counters.addrs.length, (∀ m < s.counters.addrs.length, m ≠ k →
    load s.counters.inflight m < load s.counters.inflight k) → chosen asToken s k = ∅
  less : ∀ k < s.counters.addrs.length, ∀ l < s.counters.addrs.length,
    load s.counters.inflight k < load s.counters.inflight l → (chosen asToken s l).card ≤ (chosen asToken s k).card

/-! ## A call that runs alone -/

variable {asToken : ℕ → ℤ} {s s' : Selector} {pc pc' : Pc} {a : Act} {as : List Act} {i j k : ℕ}

theorem follow_cons (h : act64 asToken s pc a = some (s', pc')) :
    follow asToken s pc (a :: as) = follow asToken s' pc' as := by
  rw [follow, h, Option.bind_some]

theorem act64_random (hs : s.Valid) (hi : i < s.counters.addrs.length) (hj : j < s.counters.addrs.length - 1) :
    act64 asToken s .p2cDraw (.random i j) = some (s, .p2cOther i (skip i j)) :=
  act64_of_act hs (if_pos ⟨hi, hj⟩)

/-- **What `P2C::next` does for an outcome of the draws.** -/
theorem p2cNext_eq (hs : s.Valid) (hi : i < s.counters.addrs.length) (hj : j < s.counters.addrs.length - 1) :
    p2cNext asToken s i j = outcome asToken s (better (load s.counters.inflight) i (skip i j)) := by
  have hother : act asToken s (.p2cOther i (skip i j)) (.load false) =
      some (s, .p2cOwn i (skip i j) (load s.counters.inflight (skip i j))) := by
    rw [act, getElem?_load hs (skip_lt hj)]
  obtain ⟨seen, hown⟩ : ∃ seen, act asToken s (.p2cOwn i (skip i j) (load s.counters.inflight (skip i j))) (.load false) =
      some (s, .pickTotal (better (load s.counters.inflight) i (skip i j)) seen) := by
    by_cases hlt : load s.counters.inflight (skip i j) < load s.counters.inflight i
    · exact ⟨load s.counters.inflight (skip i j), by simp only [act, getElem?_load hs hi, better, if_pos hlt]⟩
    · exact ⟨load s.counters.inflight i, by simp only [act, getElem?_load hs hi, better, if_neg hlt]⟩
  obtain ⟨mid, htotal, hinflight⟩ := pick_alone asToken hs (better (load s.counters.inflight) i (skip i j)) seen
  rw [p2cNext, follow_cons (act64_random hs hi hj), follow_cons (act64_of_act hs hother),
    follow_cons (act64_of_act hs hown), follow_cons htotal, follow_cons hinflight]
  rfl

theorem better_lt (hi : i < s.counters.addrs.length) (hj : j < s.counters.addrs.length - 1) :
    better (load s.counters.inflight) i (skip i j) < s.counters.addrs.length := by
  unfold better
  split_ifs
  · exact skip_lt hj
  · exact hi

/-! ## What is returned -/

theorem chosen_subset_wins (hs : s.Valid) (k : ℕ) :
    chosen asToken s k ⊆ wins (load s.counters.inflight) s.counters.addrs.length k := by
  intro p hp
  obtain ⟨hdraws, hnext⟩ := Finset.mem_filter.1 hp
  obtain ⟨hi, hj⟩ := mem_draws.1 hdraws
  rw [p2cNext_eq hs hi hj] at hnext
  exact Finset.mem_filter.2 ⟨hdraws, outcome_injective hs (better_lt hi hj) (congrArg (Option.map Prod.fst) hnext)⟩

theorem wins_subset_chosen (hs : s.Valid) (hk : k < 2 ^ 31) :
    wins (load s.counters.inflight) s.counters.addrs.length k ⊆ chosen asI32 s k := by
  intro p hp
  obtain ⟨hdraws, hbetter⟩ := Finset.mem_filter.1 hp
  obtain ⟨hi, hj⟩ := mem_draws.1 hdraws
  refine Finset.mem_filter.2 ⟨hdraws, ?_⟩
  rw [p2cNext_eq hs hi hj, hbetter, outcome, outcome, asI32_eq hk]

theorem chosen_eq_empty (hs : s.Valid) (hk : k < s.counters.addrs.length) (hlarge : 2 ^ 31 ≤ k) : chosen asI32 s k = ∅ := by
  refine Finset.filter_eq_empty_iff.2 fun p hdraws hnext => ?_
  obtain ⟨hi, hj⟩ := mem_draws.1 hdraws
  rw [p2cNext_eq hs hi hj, outcome, outcome, List.getElem?_eq_getElem hk, Option.map_some] at hnext
  obtain ⟨addr, -, heq⟩ := Option.map_eq_some_iff.1 hnext
  have htoken : asI32 _ = (k : ℤ) := (Prod.mk.inj (Prod.mk.inj heq).2).2
  have hrange := Int.bmod_lt (x := better (load s.counters.inflight) p.1 (skip p.1 p.2)) (m := 2 ^ 32) (by omega)
  unfold asI32 at htoken
  omega

theorem PicksByLoad.most (h : PicksByLoad asI32 s) (hs : s.Valid) (hk : k < s.counters.addrs.length) (hlarge : 2 ^ 31 ≤ k) :
    ∀ m < s.counters.addrs.length, m ≠ k → load s.counters.inflight m < load s.counters.inflight k := by
  have hcount := h.count k hk
  rw [chosen_eq_empty hs hk hlarge] at hcount
  exact (card_wins_eq_zero hk).1 ((card_wins hk).trans hcount.symm)

/-- **The choice of `P2C::next` is as it should be** exactly if every upstream whose number is no `i32` is more loaded than
all others. -/
theorem picksByLoad_iff (hs : s.Valid) :
    PicksByLoad asI32 s ↔ ∀ k < s.counters.addrs.length, 2 ^ 31 ≤ k →
      ∀ m < s.counters.addrs.length, m ≠ k → load s.counters.inflight m < load s.counters.inflight k := by
  constructor
  · intro h k hk hlarge
    exact h.most hs hk hlarge
  · intro hmost
    have hchosen : ∀ k < s.counters.addrs.length,
        chosen asI32 s k = wins (load s.counters.inflight) s.counters.addrs.length k := by
      intro k hk
      by_cases hsmall : k < 2 ^ 31
      · exact Finset.Subset.antisymm (chosen_subset_wins hs k) (wins_subset_chosen hs hsmall)
      · rw [chosen_eq_empty hs hk (by omega)]
        exact (Finset.card_eq_zero.1 ((card_wins_eq_zero hk).2 (hmost k hk (by omega)))).symm
    refine ⟨fun p hp => ?_, fun a ha b hb hab => ?_, fun k hk => ?_, fun k hk hmost => ?_, fun k hk l hl hlt => ?_⟩
    · obtain ⟨hi, hj⟩ := mem_draws.1 hp
      exact ⟨p.1, skip p.1 p.2, hi, skip_lt hj, (skip_ne p.1 p.2).symm, act64_random hs hi hj⟩
    · obtain ⟨p, ⟨hp, hpair⟩, huniq⟩ := existsUnique_skip ha hb hab
      obtain ⟨rfl, rfl⟩ := Prod.mk.inj hpair
      obtain ⟨hi, hj⟩ := mem_draws.1 hp
      refine ⟨p, ⟨hp, act64_random hs hi hj⟩, ?_⟩
      rintro q ⟨hq, hact⟩
      obtain ⟨hi', hj'⟩ := mem_draws.1 hq
      rw [act64_random hs hi' hj'] at hact
      refine huniq q ⟨hq, ?_⟩
      obtain ⟨h1, h2⟩ := Pc.p2cOther.inj (Prod.mk.inj (Option.some.inj hact)).2
      rw [h1, ← h2, h1]
    · rw [hchosen k hk]
      exact card_wins hk
    · rw [hchosen k hk]
      exact Finset.card_eq_zero.1 ((card_wins_eq_zero hk).2 hmost)
    · rw [hchosen k hk, hchosen l hl]
      exact card_wins_le hk hl hlt

/-- Two upstreams, the second one idle. -/
def busyX : Selector := ⟨.p2c, ⟨["x", "y"], [0, 0], [5, 0]⟩, 0, []⟩

theorem busyX_valid : busyX.Valid := by
  refine ⟨rfl, rfl, ?_, ?_⟩ <;> simp [busyX, IsI64]

theorem picksByLoad_busyX : busyX.Valid ∧ PicksByLoad asI32 busyX := by
  refine ⟨busyX_valid, (picksByLoad_iff busyX_valid).2 fun k hk hlarge => ?_⟩
  have hlen : busyX.counters.addrs.length = 2 := rfl
  omega

/-- **The counter-example.**  A new selector over `2 ^ 31 + 1` upstreams: the last one is picked as often as the others, but
its token is negative. -/
theorem long_list_not_picksByLoad :
    ¬ ∀ s : Selector, s.Valid → 2 ≤ s.counters.addrs.length → PicksByLoad asI32 s := by
  intro h
  have hlen : (List.replicate (2 ^ 31 + 1) "a").length = 2 ^ 31 + 1 := List.length_replicate
  have hvalid := valid_new .p2c (List.replicate (2 ^ 31 + 1) "a")
  have hpicks := h _ hvalid (show 2 ≤ (List.replicate (2 ^ 31 + 1) "a").length by rw [hlen]; omega)
  have hless : load (Counters.new (List.replicate (2 ^ 31 + 1) "a")).inflight 0 <
      load (Counters.new (List.replicate (2 ^ 31 + 1) "a")).inflight (2 ^ 31) := by
    apply hpicks.most hvalid _ (Nat.le_refl _) 0
    · exact show 0 < (List.replicate (2 ^ 31 + 1) "a").length by rw [hlen]; omega
    · omega
    · exact show 2 ^ 31 < (List.replicate (2 ^ 31 + 1) "a").length by rw [hlen]; omega
  rw [load_new, load_new] at hless
  exact Int.lt_irrefl 0 hless

end ServiceProxy.Upstream.Selectors
