import Mathlib.Data.Int.CardIntervalMod
import Mathlib.Data.List.Count
import Mathlib.Data.List.Perm.Basic
import ServiceProxy.Lib.Threads

/-!
# Tickets

Any number of threads draw numbers from a shared counter that is taken modulo `m`; a thread that drew `c` then takes the item
`c % n` of a list of `n` items.  What is seen of such a run are notes: who drew which number, and who took which item.

* `Ticketed` — the invariant, with a lemma for each kind of step: a thread comes, draws, takes its item, or does something
  else;
* `Orderly` — what holds of the notes when every thread has its item and the counter did not wrap;
* `Orderly.count_taken`, `Orderly.perm_items`, `Orderly.itemAt_eq` — how often an item was taken, and which items were taken,
  as a multiset and in the order of the numbers.
-/

namespace ServiceProxy.Lib

variable {α τ : Type*}

/-- Something that is seen of a thread: it draws a number, or it takes an item. -/
inductive Note (α : Type*)
  | drew (thread number : ℕ)
  | took (thread idx : ℕ) (item : α)
  deriving DecidableEq, Repr

def Note.drawn : Note α → Option (ℕ × ℕ)
  | .drew thread number => some (thread, number)
  | .took .. => none

def Note.taken : Note α → Option (ℕ × ℕ)
  | .drew .. => none
  | .took thread idx _ => some (thread, idx)

def Note.item : Note α → Option α
  | .drew .. => none
  | .took _ _ item => some item

/-- The threads with the numbers they drew. -/
def drawn (notes : List (Note α)) : List (ℕ × ℕ) := notes.filterMap Note.drawn

/-- The threads with the places of the items they took. -/
def taken (notes : List (Note α)) : List (ℕ × ℕ) := notes.filterMap Note.taken

def items (notes : List (Note α)) : List α := notes.filterMap Note.item

def itemOf (notes : List (Note α)) (thread : ℕ) : Option α :=
  (notes.find? fun note => note.taken.any fun t => t.1 = thread).bind Note.item

/-- The item that was taken by the thread that drew the number `c`. -/
def itemAt (notes : List (Note α)) (c : ℕ) : Option α :=
  ((drawn notes).find? fun d => d.2 = c).bind fun d => itemOf notes d.1

section Notes

variable {notes : List (Note α)} {thread c idx : ℕ} {a : α}

@[simp] theorem drawn_append (notes more : List (Note α)) : drawn (notes ++ more) = drawn notes ++ drawn more :=
  List.filterMap_append

@[simp] theorem taken_append (notes more : List (Note α)) : taken (notes ++ more) = taken notes ++ taken more :=
  List.filterMap_append

@[simp] theorem drawn_drew : drawn [(.drew thread c : Note α)] = [(thread, c)] := rfl

@[simp] theorem taken_drew : taken [(.drew thread c : Note α)] = [] := rfl

@[simp] theorem drawn_took : drawn [.took thread idx a] = [] := rfl

@[simp] theorem taken_took : taken [.took thread idx a] = [(thread, idx)] := rfl

theorem mem_taken : (thread, idx) ∈ taken notes ↔ ∃ a, .took thread idx a ∈ notes := by
  rw [taken, List.mem_filterMap]
  constructor
  · rintro ⟨note, hmem, ht⟩
    cases note with
    | drew => cases ht
    | took thread' idx' a =>
      obtain ⟨rfl, rfl⟩ := Prod.mk.inj (Option.some.inj ht)
      exact ⟨a, hmem⟩
  · rintro ⟨a, hmem⟩
    exact ⟨_, hmem, rfl⟩

end Notes

theorem count_concat_of_ne {ε : Type*} [DecidableEq ε] {e e' : ε} (h : e ≠ e') (es : List ε) :
    (es ++ [e]).count e' = es.count e' := by
  rw [List.count_append, List.count_eq_zero.2 fun hmem => h (List.mem_singleton.1 hmem).symm, Nat.add_zero]

/-! ## How often a remainder comes up -/

theorem count_map_mod (n k i : ℕ) : ((List.range k).map (· % n)).count i = Nat.count (fun c => c % n = i) k := by
  induction k with
  | zero => rfl
  | succ k ih =>
    rw [List.range_succ, List.map_append, List.count_append, ih, Nat.count_succ, List.map_singleton,
      List.count_singleton]
    simp only [beq_iff_eq]

/-- Of the numbers below `k`, those with the remainder `i` are `(k - i) / n` many, rounded up. -/
theorem count_mod {n i : ℕ} (hi : i < n) (k : ℕ) : ((List.range k).map (· % n)).count i = (k - i + (n - 1)) / n := by
  have hmod : ∀ c, c % n = i ↔ c ≡ i [MOD n] := by
    intro c
    rw [Nat.ModEq, Nat.mod_eq_of_lt hi]
  rw [count_map_mod]
  simp only [hmod]
  rw [Nat.count_modEq_card k (by omega), Nat.mod_eq_of_lt hi]
  have hk := Nat.div_add_mod k n
  have hlt := Nat.mod_lt k (show 0 < n by omega)
  symm
  split_ifs with h
  · rw [Nat.div_eq_iff (by omega)]
    constructor
    · rw [Nat.add_mul, Nat.one_mul, Nat.mul_comm]
      omega
    · rw [Nat.add_mul, Nat.one_mul, Nat.mul_comm]
      omega
  · rw [Nat.div_eq_iff (by omega), Nat.add_zero, Nat.mul_comm]
    have hzero : k < n → k / n = 0 := Nat.div_eq_of_lt
    have hle : n ≤ k → n ≤ n * (k / n) := fun h => Nat.le_mul_of_pos_right n (Nat.div_pos h (by omega))
    by_cases hkn : k < n
    · rw [hzero hkn] at hk ⊢
      omega
    · have := hle (by omega)
      omega

/-! ## When every thread has its item -/

/-- **The threads drew `0` to `k - 1`, and each took the item of its number.** -/
structure Orderly (as : List α) (k : ℕ) (notes : List (Note α)) : Prop where
  numbers : (drawn notes).map Prod.snd = List.range k
  threads : ((drawn notes).map Prod.fst).Nodup
  taken : (taken notes).Perm ((drawn notes).map fun d => (d.1, d.2 % as.length))
  item : ∀ thread idx a, .took thread idx a ∈ notes → as[idx]? = some a

section Orderly

variable {as : List α} {k c i j : ℕ} {notes notes' : List (Note α)}

theorem Orderly.perm_places (h : Orderly as k notes) :
    ((ServiceProxy.Lib.taken notes).map Prod.snd).Perm ((List.range k).map (· % as.length)) := by
  have hperm := h.taken.map Prod.snd
  rw [List.map_map] at hperm
  rw [← h.numbers, List.map_map]
  exact hperm

/-- **How often the item `i` was taken.** -/
theorem Orderly.count_taken (h : Orderly as k notes) (hi : i < as.length) :
    ((ServiceProxy.Lib.taken notes).map Prod.snd).count i = (k - i + (as.length - 1)) / as.length := by
  rw [h.perm_places.count_eq, count_mod hi]

/-- Any two items were taken equally often, up to one. -/
theorem Orderly.count_taken_le (h : Orderly as k notes) (hi : i < as.length) (hj : j < as.length) :
    ((ServiceProxy.Lib.taken notes).map Prod.snd).count i ≤ ((ServiceProxy.Lib.taken notes).map Prod.snd).count j + 1 := by
  rw [h.count_taken hi, h.count_taken hj]
  have hle : k - i + (as.length - 1) ≤ k - j + (as.length - 1) + as.length := by omega
  have hdiv := Nat.div_le_div_right (c := as.length) hle
  rwa [Nat.add_div_right _ (by omega)] at hdiv

theorem items_eq (h : ∀ thread idx a, .took thread idx a ∈ notes → as[idx]? = some a) :
    items notes = ((taken notes).map Prod.snd).filterMap fun i => as[i]? := by
  induction notes with
  | nil => rfl
  | cons note notes ih =>
    have htail := ih fun thread idx a hmem => h thread idx a (List.mem_cons_of_mem _ hmem)
    cases note with
    | drew thread c => exact htail
    | took thread idx a =>
      have hhead := h thread idx a List.mem_cons_self
      change a :: items notes = (((thread, idx) :: taken notes).map Prod.snd).filterMap fun i => as[i]?
      rw [List.map_cons, List.filterMap_cons_some hhead, htail]

/-- **The items that were taken**, as a multiset. -/
theorem Orderly.perm_items (h : Orderly as k notes) :
    (items notes).Perm (((List.range k).map (· % as.length)).filterMap fun i => as[i]?) := by
  rw [items_eq h.item]
  exact h.perm_places.filterMap _

theorem Orderly.number_unique (h : Orderly as k notes) {thread c c' : ℕ} (hc : (thread, c) ∈ drawn notes)
    (hc' : (thread, c') ∈ drawn notes) : c = c' :=
  congrArg Prod.snd (List.inj_on_of_nodup_map h.threads hc hc' rfl)

theorem Orderly.exists_took (h : Orderly as k notes) {thread c : ℕ} (hdrew : (thread, c) ∈ drawn notes) :
    ∃ a, .took thread (c % as.length) a ∈ notes := by
  apply mem_taken.1
  apply h.taken.mem_iff.2
  exact List.mem_map.2 ⟨_, hdrew, rfl⟩

theorem Orderly.itemOf_eq (h : Orderly as k notes) {thread c : ℕ} (hdrew : (thread, c) ∈ drawn notes) :
    itemOf notes thread = as[c % as.length]? := by
  obtain ⟨a, ha⟩ := h.exists_took hdrew
  cases hfind : notes.find? fun note => note.taken.any fun t => t.1 = thread with
  | none => exact absurd (List.find?_eq_none.1 hfind _ ha) (by simp [Note.taken])
  | some note =>
    have hnote := List.mem_of_find?_eq_some hfind
    have hthread := List.find?_some hfind
    rw [itemOf, hfind]
    cases note with
    | drew => simp [Note.taken] at hthread
    | took thread' idx b =>
      obtain rfl : thread' = thread := by simpa [Note.taken] using hthread
      -- the first note of the thread is of an item of its number, which is the only one
      have htook := h.taken.mem_iff.1 (mem_taken.2 ⟨b, hnote⟩)
      obtain ⟨⟨thread, c'⟩, hc', heq⟩ := List.mem_map.1 htook
      obtain ⟨rfl, rfl⟩ := Prod.mk.inj heq
      obtain rfl := h.number_unique hdrew hc'
      exact (h.item _ _ _ hnote).symm

theorem Orderly.exists_drew (h : Orderly as k notes) (hc : c < k) : ∃ thread, (thread, c) ∈ drawn notes := by
  have hmem : c ∈ (drawn notes).map Prod.snd := by
    rw [h.numbers]
    exact List.mem_range.2 hc
  obtain ⟨⟨thread, c'⟩, hdrew, rfl⟩ := List.mem_map.1 hmem
  exact ⟨thread, hdrew⟩

theorem Orderly.exists_item (h : Orderly as k notes) (hc : c < k) : ∃ a, as[c % as.length]? = some a := by
  obtain ⟨thread, hdrew⟩ := h.exists_drew hc
  obtain ⟨a, ha⟩ := h.exists_took hdrew
  exact ⟨a, h.item _ _ _ ha⟩

/-- **The items that were taken**, in the order of the numbers. -/
theorem Orderly.itemAt_eq (h : Orderly as k notes) (hc : c < k) : itemAt notes c = as[c % as.length]? := by
  obtain ⟨thread, hdrew⟩ := h.exists_drew hc
  cases hfind : (drawn notes).find? fun d => d.2 = c with
  | none => exact absurd (List.find?_eq_none.1 hfind _ hdrew) (by simp)
  | some d =>
    have hd : d.2 = c := by simpa using List.find?_some hfind
    rw [itemAt, hfind, Option.bind_some, h.itemOf_eq (List.mem_of_find?_eq_some hfind), hd]

end Orderly

/-! ## While the threads run -/

/-- **The invariant.**  `waits t` says that the thread `t` is to draw, `picks t` is the place of the item that it is to take,
and `called` is the number of threads that came to draw. -/
structure Ticketed (m : ℕ) (as : List α) (waits : τ → ℕ) (picks : τ → Option ℕ) (called counter : ℕ) (notes : List (Note α))
    (tasks : List τ) : Prop where
  counter : counter = (drawn notes).length % m
  numbers : (drawn notes).map Prod.snd = (List.range (drawn notes).length).map (· % m)
  called : (drawn notes).length + tally waits tasks = called
  threads : ((drawn notes).map Prod.fst).Nodup
  past : ∀ d ∈ drawn notes, ∃ t, tasks[d.1]? = some t ∧ waits t = 0
  taken : ∀ thread idx, (taken notes).count (thread, idx) + (if (tasks[thread]?).bind picks = some idx then 1 else 0) =
    ((drawn notes).map fun d => (d.1, d.2 % as.length)).count (thread, idx)
  item : ∀ thread idx a, .took thread idx a ∈ notes → as[idx]? = some a

section Ticketed

variable {m : ℕ} {as : List α} {waits : τ → ℕ} {picks : τ → Option ℕ} {called counter k idx : ℕ} {notes : List (Note α)}
  {tasks : List τ} {t t' : τ} {a : α}

theorem ticketed_nil : Ticketed m as waits picks 0 0 ([] : List (Note α)) [] := by
  refine ⟨rfl, rfl, rfl, List.nodup_nil, ?_, fun _ _ => rfl, ?_⟩
  · intro d hd
    exact absurd hd List.not_mem_nil
  · intro thread idx a ha
    exact absurd ha List.not_mem_nil

/-- **No thread is left**: the notes are in order. -/
theorem Ticketed.orderly (h : Ticketed m as waits picks called counter notes tasks) (hcalled : called ≤ m)
    (hwaits : ∀ t ∈ tasks, waits t = 0) (hpicks : ∀ t ∈ tasks, picks t = none) : Orderly as called notes := by
  have hlen := h.called
  rw [tally_eq_zero_iff.2 hwaits, Nat.add_zero] at hlen
  refine ⟨?_, h.threads, ?_, h.item⟩
  · rw [h.numbers, hlen]
    conv_rhs => rw [← List.map_id (List.range called)]
    refine List.map_congr_left fun c hc => Nat.mod_eq_of_lt ?_
    exact Nat.lt_of_lt_of_le (List.mem_range.1 hc) hcalled
  · refine List.perm_iff_count.2 fun d => ?_
    rw [← h.taken d.1 d.2, if_neg, Nat.add_zero]
    intro hsome
    obtain ⟨t, ht, hpick⟩ := Option.bind_eq_some_iff.1 hsome
    rw [hpicks t (List.mem_of_getElem? ht)] at hpick
    cases hpick

theorem Ticketed.come (h : Ticketed m as waits picks called counter notes tasks) (hpicks : picks t = none) :
    Ticketed m as waits picks (called + waits t) counter notes (tasks ++ [t]) := by
  refine ⟨h.counter, h.numbers, ?_, h.threads, fun d hd => ?_, fun thread idx => ?_, h.item⟩
  · have := h.called
    simp only [tally_append, tally_cons, tally_nil]
    omega
  · obtain ⟨u, hu, hw⟩ := h.past d hd
    obtain ⟨hlt, -⟩ := List.getElem?_eq_some_iff.1 hu
    exact ⟨u, by rw [List.getElem?_append_left hlt, hu], hw⟩
  · rw [← h.taken thread idx]
    congr 2
    rw [List.getElem?_append]
    split_ifs with hlt
    · rfl
    · rw [List.getElem?_eq_none (Nat.not_lt.1 hlt), Option.bind_none]
      cases hone : [t][thread - tasks.length]? with
      | none => rfl
      | some u =>
        obtain rfl := List.mem_singleton.1 (List.mem_of_getElem? hone)
        rw [Option.bind_some, hpicks]

theorem bind_picks_set (hk : tasks[k]? = some t) (thread : ℕ) :
    ((tasks.set k t')[thread]?).bind picks = if k = thread then picks t' else (tasks[thread]?).bind picks := by
  obtain ⟨hlt, -⟩ := List.getElem?_eq_some_iff.1 hk
  rw [List.getElem?_set]
  split_ifs with h
  · rfl
  · rfl

theorem Ticketed.past_set (h : Ticketed m as waits picks called counter notes tasks) (hk : tasks[k]? = some t)
    (hstay : waits t = 0 → waits t' = 0) : ∀ d ∈ drawn notes, ∃ u, (tasks.set k t')[d.1]? = some u ∧ waits u = 0 := by
  intro d hd
  obtain ⟨u, hu, hw⟩ := h.past d hd
  by_cases hdk : k = d.1
  · subst hdk
    obtain rfl := Option.some.inj (hk.symm.trans hu)
    exact ⟨t', List.getElem?_set_self (List.getElem?_eq_some_iff.1 hk).1, hstay hw⟩
  · exact ⟨u, by rw [List.getElem?_set_ne hdk, hu], hw⟩

theorem Ticketed.quiet (h : Ticketed m as waits picks called counter notes tasks) (hk : tasks[k]? = some t)
    (hwaits : waits t' = waits t) (hpicks : picks t' = picks t) :
    Ticketed m as waits picks called counter notes (tasks.set k t') := by
  refine ⟨h.counter, h.numbers, ?_, h.threads, h.past_set hk fun hw => hwaits.trans hw, fun thread idx => ?_, h.item⟩
  · have hset := tally_set waits hk t'
    have hcalled := h.called
    omega
  · rw [← h.taken thread idx, bind_picks_set hk]
    by_cases hthread : k = thread
    · subst hthread
      rw [if_pos rfl, hk, Option.bind_some, hpicks]
    · rw [if_neg hthread]

/-- **A thread draws.** -/
theorem Ticketed.draw (h : Ticketed m as waits picks called counter notes tasks) (hk : tasks[k]? = some t)
    (hwaits : waits t = 1) (hpicks : picks t = none) (hwaits' : waits t' = 0) (hpicks' : picks t' = some (counter % as.length)) :
    Ticketed m as waits picks called ((counter + 1) % m) (notes ++ [.drew k counter]) (tasks.set k t') := by
  have hnew : ∀ d ∈ drawn notes, d.1 ≠ k := by
    rintro d hd rfl
    obtain ⟨u, hu, hw⟩ := h.past d hd
    obtain rfl := Option.some.inj (hk.symm.trans hu)
    omega
  refine ⟨?_, ?_, ?_, ?_, fun d hd => ?_, fun thread idx => ?_, fun thread idx a ha => ?_⟩
  · rw [h.counter, drawn_append, drawn_drew, List.length_append, List.length_singleton, Nat.mod_add_mod]
  · rw [drawn_append, drawn_drew, List.length_append, List.length_singleton, List.range_succ, List.map_append,
      List.map_append, ← h.numbers, List.map_singleton, List.map_singleton, ← h.counter]
  · have hset := tally_set waits hk t'
    have hcalled := h.called
    rw [drawn_append, drawn_drew, List.length_append, List.length_singleton]
    omega
  · rw [drawn_append, drawn_drew, List.map_append, List.map_singleton, ← List.concat_eq_append]
    refine h.threads.concat fun hmem => ?_
    obtain ⟨d, hd, heq⟩ := List.mem_map.1 hmem
    exact hnew d hd heq
  · rw [drawn_append, drawn_drew] at hd
    rcases List.mem_append.1 hd with hd | hd
    · exact h.past_set hk (fun hw => by omega) d hd
    · obtain rfl := List.mem_singleton.1 hd
      exact ⟨t', List.getElem?_set_self (List.getElem?_eq_some_iff.1 hk).1, hwaits'⟩
  · have htaken := h.taken thread idx
    rw [drawn_append, drawn_drew, taken_append, taken_drew, List.append_nil, List.map_append, List.count_append, ← htaken,
      bind_picks_set hk, List.map_singleton, List.count_singleton, Nat.add_assoc]
    by_cases hthread : k = thread
    · subst hthread
      rw [if_pos rfl, hpicks', hk, Option.bind_some, hpicks]
      simp
    · rw [if_neg hthread]
      simp [hthread]
  · rcases List.mem_append.1 ha with ha | ha
    · exact h.item thread idx a ha
    · cases List.mem_singleton.1 ha

/-- **A thread takes its item.** -/
theorem Ticketed.take (h : Ticketed m as waits picks called counter notes tasks) (hk : tasks[k]? = some t)
    (hwaits : waits t' = waits t) (hpicks : picks t = some idx) (hpicks' : picks t' = none) (ha : as[idx]? = some a) :
    Ticketed m as waits picks called counter (notes ++ [.took k idx a]) (tasks.set k t') := by
  have hdrawn : drawn (notes ++ [.took k idx a]) = drawn notes := by
    rw [drawn_append, drawn_took, List.append_nil]
  refine ⟨?_, ?_, ?_, ?_, ?_, fun thread i => ?_, fun thread i b hb => ?_⟩
  · rw [hdrawn, h.counter]
  · rw [hdrawn, h.numbers]
  · have hset := tally_set waits hk t'
    have hcalled := h.called
    rw [hdrawn]
    omega
  · rw [hdrawn]
    exact h.threads
  · rw [hdrawn]
    exact h.past_set hk fun hw => hwaits.trans hw
  · rw [hdrawn, ← h.taken thread i, taken_append, taken_took, List.count_append, List.count_singleton, bind_picks_set hk]
    by_cases hthread : k = thread
    · subst hthread
      rw [if_pos rfl, hpicks', hk, Option.bind_some, hpicks]
      simp
    · rw [if_neg hthread]
      simp [hthread]
  · rcases List.mem_append.1 hb with hb | hb
    · exact h.item thread i b hb
    · obtain ⟨rfl, rfl, rfl⟩ := Note.took.inj (List.mem_singleton.1 hb)
      exact ha

end Ticketed

end ServiceProxy.Lib
