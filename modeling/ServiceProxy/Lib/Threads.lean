import Mathlib.Algebra.Order.BigOperators.Group.List
import Mathlib.Algebra.Order.Ring.Int
import Mathlib.Algebra.Order.Ring.Nat
import Mathlib.Tactic.TypeStar

/-!
# Threads over a shared state

Any number of threads work on one shared state `γ`; a thread is its local state `τ`, the threads are a list and a
thread's name is its place in that list.  `runLocal act` lets one thread take an action of its own; what an action
does is the function `act : γ → τ → α → Option (γ × τ)`.

`tally f ts` adds the weights `f` of all threads.  Replacing one thread changes every tally by the difference of the
two weights (`tally_set`), which is what turns a statement about all interleavings into linear arithmetic; `sumOf` is the
same for integers.
-/

namespace ServiceProxy.Lib

variable {γ τ α β : Type*}

/-- The sum of the weights of the threads of `ts`. -/
def tally (f : τ → ℕ) (ts : List τ) : ℕ := (ts.map f).sum

section Tally

variable {f g : τ → ℕ} {ts : List τ} {t t' : τ} {i : ℕ}

@[simp] theorem tally_nil : tally f ([] : List τ) = 0 := rfl

@[simp] theorem tally_cons : tally f (t :: ts) = f t + tally f ts := by simp [tally]

@[simp] theorem tally_append {us : List τ} : tally f (ts ++ us) = tally f ts + tally f us := by
  simp [tally]

theorem tally_set (f : τ → ℕ) (h : ts[i]? = some t) (t' : τ) :
    tally f (ts.set i t') + f t = tally f ts + f t' := by
  induction ts generalizing i with
  | nil => simp at h
  | cons a ts ih =>
    cases i with
    | zero =>
      obtain rfl : a = t := by simpa using h
      simp only [List.set_cons_zero, tally_cons]
      omega
    | succ i =>
      have := ih (i := i) (by simpa using h)
      simp only [List.set_cons_succ, tally_cons]
      omega

theorem le_tally (f : τ → ℕ) (h : ts[i]? = some t) : f t ≤ tally f ts := by
  have hmem : f t ∈ ts.map f := List.mem_map.2 ⟨t, List.mem_of_getElem? h, rfl⟩
  exact List.single_le_sum (fun _ _ => Nat.zero_le _) _ hmem

theorem add_le_tally {j : ℕ} (f : τ → ℕ) (hi : ts[i]? = some t) (hj : ts[j]? = some t') (hij : i ≠ j) :
    f t + f t' ≤ tally f ts := by
  induction ts generalizing i j with
  | nil => simp at hi
  | cons a ts ih =>
    cases i with
    | zero =>
      cases j with
      | zero => exact absurd rfl hij
      | succ j =>
        obtain rfl : a = t := by simpa using hi
        have hle : f t' ≤ tally f ts := le_tally f (i := j) (by simpa using hj)
        simp only [tally_cons]
        omega
    | succ i =>
      cases j with
      | zero =>
        obtain rfl : a = t' := by simpa using hj
        have hle : f t ≤ tally f ts := le_tally f (i := i) (by simpa using hi)
        simp only [tally_cons]
        omega
      | succ j =>
        have := ih (i := i) (j := j) (by simpa using hi) (by simpa using hj) (by omega)
        simp only [tally_cons]
        omega

theorem tally_pos_iff : 0 < tally f ts ↔ ∃ t ∈ ts, 0 < f t := by
  induction ts with
  | nil => simp
  | cons a ts ih =>
    rw [tally_cons]
    constructor
    · intro h
      by_cases ha : 0 < f a
      · exact ⟨a, by simp, ha⟩
      · obtain ⟨t, ht, h⟩ := ih.1 (by omega)
        exact ⟨t, List.mem_cons_of_mem _ ht, h⟩
    · rintro ⟨t, ht, h⟩
      rcases List.mem_cons.1 ht with rfl | ht
      · omega
      · have := ih.2 ⟨t, ht, h⟩
        omega

theorem tally_eq_zero_iff : tally f ts = 0 ↔ ∀ t ∈ ts, f t = 0 := by
  constructor
  · intro h t ht
    by_contra hne
    have := tally_pos_iff.2 ⟨t, ht, Nat.pos_of_ne_zero hne⟩
    omega
  · intro h
    by_contra hne
    obtain ⟨t, ht, hpos⟩ := tally_pos_iff.1 (Nat.pos_of_ne_zero hne)
    have := h t ht
    omega

theorem tally_add : tally (fun t => f t + g t) ts = tally f ts + tally g ts := by
  induction ts with
  | nil => rfl
  | cons a ts ih => simp only [tally_cons, ih]; omega

theorem tally_mono (h : ∀ t ∈ ts, f t ≤ g t) : tally f ts ≤ tally g ts := by
  induction ts with
  | nil => simp
  | cons a ts ih =>
    have h1 := h a (by simp)
    have h2 := ih fun t ht => h t (List.mem_cons_of_mem _ ht)
    simp only [tally_cons]
    omega

theorem tally_le_length (h : ∀ t, f t ≤ 1) (ts : List τ) : tally f ts ≤ ts.length := by
  induction ts with
  | nil => exact Nat.le_refl 0
  | cons a ts ih =>
    have ha := h a
    rw [tally_cons, List.length_cons]
    omega

theorem tally_congr (h : ∀ t ∈ ts, f t = g t) : tally f ts = tally g ts := by
  unfold tally
  rw [List.map_congr_left h]

theorem count_map_eq_tally [DecidableEq β] (p : τ → β) (ts : List τ) (b : β) :
    (ts.map p).count b = tally (fun t => if p t = b then 1 else 0) ts := by
  induction ts with
  | nil => rfl
  | cons a ts ih =>
    rw [List.map_cons, List.count_cons, tally_cons, ih, Nat.add_comm]
    simp only [beq_iff_eq]

end Tally

/-! ## Sums of integers -/

/-- The sum of the integers `f` of the threads of `ts`. -/
def sumOf (f : τ → ℤ) (ts : List τ) : ℤ := (ts.map f).sum

section SumOf

variable {f g : τ → ℤ} {ts : List τ} {t : τ} {i : ℕ}

@[simp] theorem sumOf_nil : sumOf f ([] : List τ) = 0 := rfl

@[simp] theorem sumOf_cons : sumOf f (t :: ts) = f t + sumOf f ts := by simp [sumOf]

@[simp] theorem sumOf_append {us : List τ} : sumOf f (ts ++ us) = sumOf f ts + sumOf f us := by
  simp [sumOf]

theorem sumOf_set (f : τ → ℤ) (h : ts[i]? = some t) (t' : τ) :
    sumOf f (ts.set i t') + f t = sumOf f ts + f t' := by
  induction ts generalizing i with
  | nil => simp at h
  | cons a ts ih =>
    cases i with
    | zero =>
      obtain rfl : a = t := by simpa using h
      simp only [List.set_cons_zero, sumOf_cons]
      omega
    | succ i =>
      have := ih (i := i) (by simpa using h)
      simp only [List.set_cons_succ, sumOf_cons]
      omega

theorem sumOf_mono (h : ∀ t ∈ ts, f t ≤ g t) : sumOf f ts ≤ sumOf g ts := by
  induction ts with
  | nil => simp
  | cons a ts ih =>
    have h1 := h a (by simp)
    have h2 := ih fun t ht => h t (List.mem_cons_of_mem _ ht)
    simp only [sumOf_cons]
    omega

theorem sumOf_eq_zero (h : ∀ t ∈ ts, f t = 0) : sumOf f ts = 0 := by
  induction ts with
  | nil => rfl
  | cons a ts ih => rw [sumOf_cons, h a (by simp), ih fun t ht => h t (List.mem_cons_of_mem _ ht), Int.add_zero]

end SumOf

/-! ## One thread acts -/

/-- The shared state and the threads. -/
structure Threads (γ τ : Type*) where
  shared : γ
  tasks : List τ
  deriving DecidableEq, Repr

/-- The thread `i` takes the action `a`. -/
def runLocal (act : γ → τ → α → Option (γ × τ)) (s : Threads γ τ) (i : ℕ) (a : α) : Option (Threads γ τ) :=
  (s.tasks[i]?).bind fun t => (act s.shared t a).map fun r => ⟨r.1, s.tasks.set i r.2⟩

section Forall

variable {P : τ → Prop} {ts : List τ} {t : τ}

theorem forall_mem_concat (h : ∀ u ∈ ts, P u) (ht : P t) : ∀ u ∈ ts ++ [t], P u := by
  intro u hu
  rcases List.mem_append.1 hu with hu | hu
  · exact h u hu
  · obtain rfl := List.mem_singleton.1 hu
    exact ht

theorem forall_mem_set (h : ∀ u ∈ ts, P u) (ht : P t) (i : ℕ) : ∀ u ∈ ts.set i t, P u := by
  intro u hu
  rcases List.mem_or_eq_of_mem_set hu with hu | rfl
  · exact h u hu
  · exact ht

theorem map_set_of_eq {i : ℕ} {t' : τ} (h : ts[i]? = some t) (f : τ → β) (hf : f t' = f t) :
    (ts.set i t').map f = ts.map f := by
  obtain ⟨hlt, rfl⟩ := List.getElem?_eq_some_iff.1 h
  rw [List.map_set, hf, ← List.getElem_map f (h := by rwa [List.length_map]), List.set_getElem_self]

end Forall

theorem runLocal_eq_some {act : γ → τ → α → Option (γ × τ)} {s s' : Threads γ τ} {i : ℕ} {a : α}
    (h : runLocal act s i a = some s') :
    ∃ t g t', s.tasks[i]? = some t ∧ act s.shared t a = some (g, t') ∧ s' = ⟨g, s.tasks.set i t'⟩ := by
  obtain ⟨t, ht, h⟩ := Option.bind_eq_some_iff.1 h
  obtain ⟨⟨g, t'⟩, hr, rfl⟩ := Option.map_eq_some_iff.1 h
  exact ⟨t, g, t', ht, hr, rfl⟩

end ServiceProxy.Lib
