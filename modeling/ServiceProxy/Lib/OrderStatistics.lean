import Mathlib.Data.Finset.Card
import Mathlib.Data.List.Sort
import Mathlib.Data.List.Forall2
import Mathlib.Order.Interval.Finset.Nat

/-!
# Order statistics of a list

`orderStat l k` is the element of rank `k` of the sorted list, counted from `0`.  Everything about it follows from one
equivalence, `orderStat_le_iff`: the statistic is at most `x` exactly if more than `k` elements of the list are.

* `insertionSort_perm` — the order of the list does not matter;
* `orderStat_mono` — a higher rank, a larger statistic;
* `orderStat_rank` — how many elements lie on either side;
* `orderStat_dominated` — a list that is larger place by place has larger statistics, although the two lists are sorted
  independently;
* `card_missing` — the element of rank `k` of an increasing list of positive numbers tells how many numbers are left out.
-/

namespace ServiceProxy.Lib

variable {α : Type*} [LinearOrder α]

/-- The element of rank `k`, counted from `0`. -/
def orderStat (l : List α) (k : ℕ) : Option α := (l.insertionSort (· ≤ ·))[k]?

section OrderStat

variable {l l' : List α} {k k' : ℕ} {a b v : α}

theorem sorted_le_iff {s : List α} (hs : s.Pairwise (· ≤ ·)) (h : s[k]? = some a) (v : α) :
    a ≤ v ↔ k < s.countP (· ≤ v) := by
  induction s generalizing k with
  | nil => simp at h
  | cons b s ih =>
    obtain ⟨hb, hs⟩ := List.pairwise_cons.1 hs
    by_cases hbv : b ≤ v
    · rw [List.countP_cons_of_pos (by simpa using hbv)]
      cases k with
      | zero =>
        obtain rfl : b = a := by simpa using h
        simp [hbv]
      | succ k =>
        rw [ih hs (by simpa using h)]
        omega
    · -- nothing behind `b` is at most `v` either
      have hnone : (b :: s).countP (· ≤ v) = 0 := by
        rw [List.countP_eq_zero]
        intro c hc
        rcases List.mem_cons.1 hc with rfl | hc
        · simpa using hbv
        · simpa using fun hcv => hbv ((hb c hc).trans hcv)
      have hba : b ≤ a := by
        rcases List.mem_cons.1 (List.mem_of_getElem? h) with rfl | ha
        · exact le_rfl
        · exact hb a ha
      rw [hnone]
      simp only [Nat.not_lt_zero, iff_false]
      exact fun hav => hbv (hba.trans hav)

/-- **The rank of a statistic**: it is at most `v` exactly if more than `k` elements are. -/
theorem orderStat_le_iff (h : orderStat l k = some a) (v : α) : a ≤ v ↔ k < l.countP (· ≤ v) := by
  rw [sorted_le_iff (List.pairwise_insertionSort _ l) h v, (List.perm_insertionSort _ l).countP_eq]

theorem orderStat_isSome : (orderStat l k).isSome ↔ k < l.length := by simp [orderStat]

theorem mem_of_orderStat (h : orderStat l k = some a) : a ∈ l :=
  (List.mem_insertionSort (· ≤ ·)).1 (List.mem_of_getElem? h)

/-- **The order of the list does not matter.** -/
theorem insertionSort_perm (h : l.Perm l') : l.insertionSort (· ≤ ·) = l'.insertionSort (· ≤ ·) :=
  (((List.perm_insertionSort _ l).trans h).trans (List.perm_insertionSort _ l').symm).eq_of_pairwise'
    (List.pairwise_insertionSort _ l) (List.pairwise_insertionSort _ l')

/-- **A higher rank, a larger statistic.** -/
theorem orderStat_mono (h : orderStat l k = some a) (h' : orderStat l k' = some b) (hk : k ≤ k') : a ≤ b := by
  rw [orderStat_le_iff h]
  exact Nat.lt_of_le_of_lt hk ((orderStat_le_iff h' b).1 le_rfl)

/-- **How many elements lie on either side of a statistic.** -/
theorem orderStat_rank (h : orderStat l k = some a) :
    k + 1 ≤ l.countP (· ≤ a) ∧ l.length ≤ l.countP (a ≤ ·) + k := by
  refine ⟨(orderStat_le_iff h a).1 le_rfl, ?_⟩
  -- if more than `k` elements were below `a`, the largest of them would bound the statistic
  by_contra hlt
  have hsplit : l.length = l.countP (a ≤ ·) + l.countP (· < a) := by
    rw [List.length_eq_countP_add_countP (fun c => decide (a ≤ c))]
    simp
  have hbelow : k < (l.filter (· < a)).length := by
    rw [← List.countP_eq_length_filter]
    omega
  obtain ⟨b, hb⟩ := Option.isSome_iff_exists.1 (orderStat_isSome.2 hbelow)
  have hba : b < a := by simpa using (List.mem_filter.1 (mem_of_orderStat hb)).2
  have hcount : k < l.countP (· ≤ b) :=
    Nat.lt_of_lt_of_le ((orderStat_le_iff hb b).1 le_rfl) (List.Sublist.countP_le List.filter_sublist)
  exact absurd ((orderStat_le_iff h b).2 hcount) (not_le.2 hba)

theorem countP_le_of_dominated (hle : List.Forall₂ (· ≤ ·) l l') (v : α) : l'.countP (· ≤ v) ≤ l.countP (· ≤ v) := by
  induction hle with
  | nil => exact Nat.le_refl _
  | @cons c d l l' hcd _ ih =>
    by_cases hdv : d ≤ v
    · rw [List.countP_cons_of_pos (by simpa using hdv), List.countP_cons_of_pos (by simpa using hcd.trans hdv)]
      omega
    · rw [List.countP_cons_of_neg (by simpa using hdv), List.countP_cons]
      omega

/-- **A list that is larger place by place has larger statistics.** -/
theorem orderStat_dominated (hle : List.Forall₂ (· ≤ ·) l l') (h : orderStat l k = some a) (h' : orderStat l' k = some b) :
    a ≤ b := by
  rw [orderStat_le_iff h]
  exact Nat.lt_of_lt_of_le ((orderStat_le_iff h' b).1 le_rfl) (countP_le_of_dominated hle b)

end OrderStat

/-! ## Increasing lists -/

/-- **How many numbers an increasing list leaves out** up to the one at the place `i`, which is `i + 1` if there is none. -/
theorem card_missing {l : List ℕ} (hl : l.Pairwise (· < ·)) (hpos : ∀ k ∈ l, 1 ≤ k) {i j : ℕ} (hi : l[i]? = some j) :
    {k ∈ Finset.Icc 1 j | k ∉ l}.card + (i + 1) = j := by
  obtain ⟨hlt, rfl⟩ := List.getElem?_eq_some_iff.1 hi
  have hmono := List.pairwise_iff_getElem.1 hl
  -- those that are not left out are the first `i + 1` elements
  have hfront : {k ∈ Finset.Icc 1 l[i] | k ∈ l} = (l.take (i + 1)).toFinset := by
    ext k
    rw [Finset.mem_filter, Finset.mem_Icc, List.mem_toFinset, List.mem_take_iff_getElem]
    constructor
    · rintro ⟨⟨-, hle⟩, hk⟩
      obtain ⟨m, hm, rfl⟩ := List.mem_iff_getElem.1 hk
      have hmi : m ≤ i := by
        by_contra hgt
        have := hmono i m hlt hm (by omega)
        omega
      exact ⟨m, by omega, rfl⟩
    · rintro ⟨m, hm, rfl⟩
      have hle : l[m] ≤ l[i] := by
        rcases Nat.lt_or_eq_of_le (show m ≤ i by omega) with h | rfl
        · exact (hmono m i (by omega) hlt h).le
        · exact le_rfl
      exact ⟨⟨hpos _ (List.getElem_mem _), hle⟩, List.getElem_mem _⟩
  have hnodup : (l.take (i + 1)).Nodup := (hl.imp Nat.ne_of_lt).sublist (List.take_sublist _ _)
  have hsplit := Finset.card_filter_add_card_filter_not (s := Finset.Icc 1 l[i]) (fun k => k ∈ l)
  rw [hfront, List.toFinset_card_of_nodup hnodup, List.length_take, Nat.card_Icc] at hsplit
  omega

end ServiceProxy.Lib
