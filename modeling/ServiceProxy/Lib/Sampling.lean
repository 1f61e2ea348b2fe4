import Mathlib.Data.Finset.Prod
import Mathlib.Probability.Distributions.Uniform

/-!
# Sampling

* **Reservoir sampling.**  A uniform choice from a finite set is kept up to date while the set grows: the new element takes
  the place of the choice with probability one over the new size (`coin`, `bind_coin`).
* **Two distinct indices.**  The second one is drawn from a range that is shorter by one and shifted past the first (`skip`);
  every pair of distinct indices comes from one outcome of the draws (`existsUnique_skip`).
* **The better of two.**  How often `k` wins among all pairs of distinct indices (`card_wins`).
-/

namespace ServiceProxy.Lib

open scoped ENNReal

/-! ## Reservoir sampling -/

section Reservoir

variable {α : Type*}

/-- Whether a uniform number below `t + 1` is `0`. -/
noncomputable def coin (t : ℕ) : PMF Bool := (PMF.uniformOfFintype (Fin (t + 1))).map (· == 0)

theorem coin_true (t : ℕ) : coin t true = ((t : ℝ≥0∞) + 1)⁻¹ := by
  rw [coin, PMF.map_apply, tsum_fintype, Fin.sum_univ_succ]
  simp

theorem coin_false (t : ℕ) : coin t false = t * ((t : ℝ≥0∞) + 1)⁻¹ := by
  rw [coin, PMF.map_apply, tsum_fintype, Fin.sum_univ_succ]
  simp

variable [DecidableEq α] {S : Finset α} {a : α}

theorem map_coin_apply (t : ℕ) (a b x : α) :
    ((coin t).map fun tie => if tie then a else b) x =
      (if x = b then t * ((t : ℝ≥0∞) + 1)⁻¹ else 0) + if x = a then ((t : ℝ≥0∞) + 1)⁻¹ else 0 := by
  rw [PMF.map_apply, tsum_fintype, Fintype.sum_bool, coin_true, coin_false, add_comm]
  simp

/-- **One step of reservoir sampling.** -/
theorem bind_coin (hS : S.Nonempty) (ha : a ∉ S) :
    ((PMF.uniformOfFinset S hS).bind fun b => (coin S.card).map fun tie => if tie then a else b) =
      PMF.uniformOfFinset (insert a S) (Finset.insert_nonempty a S) := by
  have hcard : (S.card : ℝ≥0∞) * (S.card : ℝ≥0∞)⁻¹ = 1 :=
    ENNReal.mul_inv_cancel (by simpa using hS.ne_empty) (ENNReal.natCast_ne_top _)
  ext x
  rw [PMF.bind_apply, tsum_eq_sum (s := S) fun b hb => by rw [PMF.uniformOfFinset_apply_of_notMem hS hb, zero_mul]]
  have hsum : ∀ b ∈ S, PMF.uniformOfFinset S hS b * ((coin S.card).map fun tie => if tie then a else b) x =
      (S.card : ℝ≥0∞)⁻¹ * ((if x = b then S.card * ((S.card : ℝ≥0∞) + 1)⁻¹ else 0) +
        if x = a then ((S.card : ℝ≥0∞) + 1)⁻¹ else 0) := by
    intro b hb
    rw [PMF.uniformOfFinset_apply_of_mem hS hb, map_coin_apply]
  rw [Finset.sum_congr rfl hsum, ← Finset.mul_sum, Finset.sum_add_distrib, Finset.sum_ite_eq, Finset.sum_const,
    nsmul_eq_mul, PMF.uniformOfFinset_apply, Finset.card_insert_of_notMem ha, Nat.cast_add, Nat.cast_one]
  by_cases hxa : x = a
  · subst hxa
    rw [if_neg ha, if_pos rfl, if_pos (Finset.mem_insert_self x S), zero_add, ← mul_assoc, mul_comm _ (S.card : ℝ≥0∞),
      hcard, one_mul]
  · rw [if_neg hxa, mul_zero, add_zero]
    by_cases hx : x ∈ S
    · rw [if_pos hx, if_pos (Finset.mem_insert_of_mem hx), ← mul_assoc, mul_comm _ (S.card : ℝ≥0∞), hcard, one_mul]
    · rw [if_neg hx, if_neg (by simp [hxa, hx]), mul_zero]

theorem uniformOfFinset_singleton (a : α) : PMF.uniformOfFinset {a} (Finset.singleton_nonempty a) = PMF.pure a := by
  ext x
  simp [PMF.uniformOfFinset_apply, PMF.pure_apply]

end Reservoir

/-! ## Two distinct indices -/

section Skip

variable {n i j a b : ℕ}

/-- The index `j` of the others of `i`. -/
def skip (i j : ℕ) : ℕ := if i ≤ j then j + 1 else j

/-- The outcomes of the two draws. -/
def draws (n : ℕ) : Finset (ℕ × ℕ) := Finset.range n ×ˢ Finset.range (n - 1)

theorem mem_draws {p : ℕ × ℕ} : p ∈ draws n ↔ p.1 < n ∧ p.2 < n - 1 := by simp [draws]

theorem skip_ne (i j : ℕ) : skip i j ≠ i := by
  unfold skip
  split_ifs <;> omega

theorem skip_lt (hj : j < n - 1) : skip i j < n := by
  unfold skip
  split_ifs <;> omega

theorem skip_injective (h : skip i a = skip i b) : a = b := by
  unfold skip at h
  split_ifs at h <;> omega

theorem exists_skip (ha : a < n) (hb : b < n) (hab : a ≠ b) : ∃ j < n - 1, skip a j = b := by
  by_cases h : a < b
  · refine ⟨b - 1, by omega, ?_⟩
    rw [skip, if_pos (by omega)]
    omega
  · refine ⟨b, by omega, ?_⟩
    rw [skip, if_neg (by omega)]

/-- **Every pair of distinct indices comes from one outcome of the draws.** -/
theorem existsUnique_skip (ha : a < n) (hb : b < n) (hab : a ≠ b) : ∃! p, p ∈ draws n ∧ (p.1, skip p.1 p.2) = (a, b) := by
  obtain ⟨j, hj, hskip⟩ := exists_skip ha hb hab
  refine ⟨(a, j), ⟨mem_draws.2 ⟨ha, hj⟩, by rw [hskip]⟩, ?_⟩
  rintro ⟨i', j'⟩ ⟨-, heq⟩
  obtain ⟨hi, hskip'⟩ := Prod.mk.inj heq
  subst hi
  exact congrArg (Prod.mk _) (skip_injective (hskip'.trans hskip.symm))

end Skip

/-! ## The better of two -/

section Wins

variable {α : Type*} [LinearOrder α] {f : ℕ → α} {n k l : ℕ}

/-- The one of two indices whose value is less, the first one if they are equal. -/
def better (f : ℕ → α) (a b : ℕ) : ℕ := if f b < f a then b else a

/-- The outcomes of the draws that `k` wins. -/
def wins (f : ℕ → α) (n k : ℕ) : Finset (ℕ × ℕ) := {p ∈ draws n | better f p.1 (skip p.1 p.2) = k}

/-- The indices whose value is greater than that of `k`. -/
def above (f : ℕ → α) (n k : ℕ) : Finset ℕ := {m ∈ Finset.range n | f k < f m}

/-- The other indices with the value of `k`. -/
def level (f : ℕ → α) (n k : ℕ) : Finset ℕ := {m ∈ Finset.range n | m ≠ k ∧ f m = f k}

theorem disjoint_above_level : Disjoint (above f n k) (level f n k) := by
  refine Finset.disjoint_left.2 fun m hm hm' => ?_
  have habove := (Finset.mem_filter.1 hm).2
  have hlevel := (Finset.mem_filter.1 hm').2.2
  exact absurd habove (by rw [hlevel]; exact lt_irrefl _)

theorem card_wins_first (hk : k < n) :
    (Finset.card {p ∈ wins f n k | p.1 = k}) = (above f n k).card + (level f n k).card := by
  rw [← Finset.card_union_of_disjoint disjoint_above_level]
  apply Finset.card_bij fun p _ => skip p.1 p.2
  · rintro ⟨i, j⟩ hp
    obtain ⟨hwins, rfl⟩ := Finset.mem_filter.1 hp
    obtain ⟨hdraws, hbetter⟩ := Finset.mem_filter.1 hwins
    obtain ⟨hi, hj⟩ := mem_draws.1 hdraws
    have hnot : ¬ f (skip i j) < f i := by
      intro hlt
      rw [better, if_pos hlt] at hbetter
      exact skip_ne i j hbetter
    have hlt : skip i j < n := skip_lt hj
    rcases lt_or_eq_of_le (not_lt.1 hnot) with h | h
    · exact Finset.mem_union_left _ (Finset.mem_filter.2 ⟨Finset.mem_range.2 hlt, h⟩)
    · exact Finset.mem_union_right _ (Finset.mem_filter.2 ⟨Finset.mem_range.2 hlt, skip_ne i j, h.symm⟩)
  · rintro ⟨i, j⟩ hp ⟨i', j'⟩ hp' heq
    obtain rfl : i = k := (Finset.mem_filter.1 hp).2
    obtain rfl : i' = i := (Finset.mem_filter.1 hp').2
    exact congrArg (Prod.mk _) (skip_injective heq)
  · intro m hm
    have hmn : m < n ∧ k ≠ m ∧ ¬ f m < f k := by
      rcases Finset.mem_union.1 hm with h | h
      · obtain ⟨hr, hlt⟩ := Finset.mem_filter.1 h
        exact ⟨Finset.mem_range.1 hr, fun hkm => absurd hlt (hkm ▸ lt_irrefl _), lt_asymm hlt⟩
      · obtain ⟨hr, hne, heq⟩ := Finset.mem_filter.1 h
        exact ⟨Finset.mem_range.1 hr, hne.symm, heq ▸ lt_irrefl _⟩
    obtain ⟨j, hj, rfl⟩ := exists_skip hk hmn.1 hmn.2.1
    refine ⟨(k, j), Finset.mem_filter.2 ⟨Finset.mem_filter.2 ⟨mem_draws.2 ⟨hk, hj⟩, ?_⟩, rfl⟩, rfl⟩
    exact if_neg hmn.2.2

theorem card_wins_second (hk : k < n) : (Finset.card {p ∈ wins f n k | ¬ p.1 = k}) = (above f n k).card := by
  apply Finset.card_bij fun p _ => p.1
  · rintro ⟨i, j⟩ hp
    obtain ⟨hwins, hne⟩ := Finset.mem_filter.1 hp
    obtain ⟨hdraws, hbetter⟩ := Finset.mem_filter.1 hwins
    simp only [better] at hbetter
    split_ifs at hbetter with hlt
    · exact Finset.mem_filter.2 ⟨Finset.mem_range.2 (mem_draws.1 hdraws).1, hbetter ▸ hlt⟩
    · exact absurd hbetter hne
  · rintro ⟨i, j⟩ hp ⟨i', j'⟩ hp' heq
    obtain rfl : i = i' := heq
    have hsecond : ∀ j, (i, j) ∈ ({p ∈ wins f n k | ¬ p.1 = k} : Finset (ℕ × ℕ)) → skip i j = k := by
      intro j hj
      obtain ⟨hwins, hne⟩ := Finset.mem_filter.1 hj
      have hbetter := (Finset.mem_filter.1 hwins).2
      simp only [better] at hbetter
      split_ifs at hbetter with hlt
      · exact hbetter
      · exact absurd hbetter hne
    rw [skip_injective ((hsecond j hp).trans (hsecond j' hp').symm)]
  · intro m hm
    obtain ⟨hr, hlt⟩ := Finset.mem_filter.1 hm
    have hne : m ≠ k := fun hmk => absurd hlt (hmk ▸ lt_irrefl _)
    obtain ⟨j, hj, hskip⟩ := exists_skip (Finset.mem_range.1 hr) hk hne
    refine ⟨(m, j), Finset.mem_filter.2 ⟨Finset.mem_filter.2 ⟨mem_draws.2 ⟨Finset.mem_range.1 hr, hj⟩, ?_⟩, hne⟩, rfl⟩
    rw [hskip]
    exact if_pos hlt

/-- **How often `k` wins.** -/
theorem card_wins (hk : k < n) : (wins f n k).card = 2 * (above f n k).card + (level f n k).card := by
  rw [← Finset.card_filter_add_card_filter_not (s := wins f n k) (p := fun p => p.1 = k), card_wins_first hk,
    card_wins_second hk]
  omega

theorem card_wins_eq_zero (hk : k < n) : (wins f n k).card = 0 ↔ ∀ m < n, m ≠ k → f m < f k := by
  rw [card_wins hk]
  constructor
  · intro hzero m hm hne
    have habove : m ∉ above f n k := by
      rw [Finset.card_eq_zero.1 (show (above f n k).card = 0 by omega)]
      exact Finset.notMem_empty m
    have hlevel : m ∉ level f n k := by
      rw [Finset.card_eq_zero.1 (show (level f n k).card = 0 by omega)]
      exact Finset.notMem_empty m
    refine lt_of_le_of_ne (not_lt.1 fun hlt => habove ?_) fun heq => hlevel ?_
    · exact Finset.mem_filter.2 ⟨Finset.mem_range.2 hm, hlt⟩
    · exact Finset.mem_filter.2 ⟨Finset.mem_range.2 hm, hne, heq⟩
  · intro hmost
    have habove : above f n k = ∅ := by
      refine Finset.filter_eq_empty_iff.2 fun m hm hlt => ?_
      by_cases hmk : m = k
      · exact absurd hlt (hmk ▸ lt_irrefl _)
      · exact absurd hlt (lt_asymm (hmost m (Finset.mem_range.1 hm) hmk))
    have hlevel : level f n k = ∅ := by
      refine Finset.filter_eq_empty_iff.2 fun m hm hml => ?_
      exact absurd hml.2 (ne_of_lt (hmost m (Finset.mem_range.1 hm) hml.1))
    rw [habove, hlevel]
    rfl

theorem card_wins_le (hk : k < n) (hl : l < n) (h : f k < f l) : (wins f n l).card ≤ (wins f n k).card := by
  have hsub : above f n l ∪ level f n l ⊆ above f n k := by
    intro m hm
    rcases Finset.mem_union.1 hm with hm | hm
    · obtain ⟨hr, hlt⟩ := Finset.mem_filter.1 hm
      exact Finset.mem_filter.2 ⟨hr, h.trans hlt⟩
    · obtain ⟨hr, -, heq⟩ := Finset.mem_filter.1 hm
      exact Finset.mem_filter.2 ⟨hr, heq ▸ h⟩
  have hle := Finset.card_le_card hsub
  rw [Finset.card_union_of_disjoint disjoint_above_level] at hle
  rw [card_wins hk, card_wins hl]
  omega

end Wins

end ServiceProxy.Lib
