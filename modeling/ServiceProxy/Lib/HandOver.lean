import ServiceProxy.Lib.Threads
import Mathlib.Data.List.Perm.Subperm
import Mathlib.Data.List.Range

/-!
# Items that are handed over to workers

Items are numbered in the order in which they come.  They wait in a line; a worker takes the first one, has it in hand, and
finishes it.  `inHand u` is what the worker `u` has in hand.

* `Book` — who has received and who has finished which item, and what can happen: an item comes (`Book.come`), a worker moves
  on (`Book.keep`), takes the first item of the line (`Book.receive`) or finishes the one it has (`Book.finish`);
* `HandedOver` — exactly once, in order, and how many items there are;
* `Book.handedOver` — the second follows from the first.
-/

namespace ServiceProxy.Lib

variable {τ : Type*}

/-- What the worker `k` has in hand. -/
def handOf (inHand : τ → List ℕ) (ts : List τ) (k : ℕ) : List ℕ := ((ts[k]?).map inHand).getD []

/-- Items are received in the order of their numbers, and an item is in the hand of the worker that has received it until that
worker has finished it. -/
structure Book (inHand : τ → List ℕ) (accepted : ℕ) (line : List ℕ) (received finished : List (ℕ × ℕ)) (ts : List τ) :
    Prop where
  order : received.map Prod.snd ++ line = List.range accepted
  once : ∀ k c, received.count (k, c) = finished.count (k, c) + (handOf inHand ts k).count c
  size : received.length = finished.length + tally (fun t => (inHand t).length) ts

/-- **What a hand-over promises**: items are received in the order in which they came, each of them by one worker, which has it
in hand until it has finished it; at most `w` are handled at once, and at most `w + d + 1` have come and are not finished. -/
structure HandedOver (inHand : τ → List ℕ) (handles : τ → ℕ) (w d accepted : ℕ) (line : List ℕ)
    (received finished : List (ℕ × ℕ)) (ts : List τ) : Prop where
  order : received.map Prod.snd ++ line = List.range accepted
  nodup_received : (received.map Prod.snd).Nodup
  once : ∀ k c, received.count (k, c) = finished.count (k, c) + (handOf inHand ts k).count c
  nodup_finished : (finished.map Prod.snd).Nodup
  handled : tally handles ts ≤ w
  backlog : accepted ≤ finished.length + (w + d + 1)

variable {inHand : τ → List ℕ} {accepted k c : ℕ} {line : List ℕ} {received finished : List (ℕ × ℕ)} {ts : List τ} {t t' : τ}

theorem handOf_of_getElem? (hk : ts[k]? = some t) : handOf inHand ts k = inHand t := by
  rw [handOf, hk, Option.map_some, Option.getD_some]

theorem handOf_set (hk : ts[k]? = some t) (t' : τ) (k' : ℕ) :
    handOf inHand (ts.set k t') k' = if k = k' then inHand t' else handOf inHand ts k' := by
  have hlt := (List.getElem?_eq_some_iff.1 hk).1
  simp only [handOf, List.getElem?_set]
  split_ifs with hkk
  · subst hkk
    rfl
  · rfl

/-! ## What can happen -/

theorem book_new (hts : ∀ t ∈ ts, inHand t = []) : Book inHand 0 [] [] [] ts := by
  refine ⟨rfl, fun k c => ?_, ?_⟩
  · have hnone : handOf inHand ts k = [] := by
      cases hk : ts[k]? with
      | none => rw [handOf, hk]; rfl
      | some t => rw [handOf_of_getElem? hk, hts t (List.mem_of_getElem? hk)]
    rw [hnone]
    rfl
  · have hzero : tally (fun t => (inHand t).length) ts = 0 :=
      tally_eq_zero_iff.2 fun t ht => by rw [hts t ht, List.length_nil]
    rw [hzero]
    rfl

theorem Book.come (h : Book inHand accepted line received finished ts) :
    Book inHand (accepted + 1) (line ++ [accepted]) received finished ts := by
  refine ⟨?_, h.once, h.size⟩
  rw [List.range_succ, ← h.order, List.append_assoc]

theorem Book.keep (h : Book inHand accepted line received finished ts) (hk : ts[k]? = some t) (ht : inHand t' = inHand t) :
    Book inHand accepted line received finished (ts.set k t') := by
  have hset := tally_set (fun t => (inHand t).length) hk t'
  have hsize := h.size
  refine ⟨h.order, fun k' c => ?_, ?_⟩
  · rw [handOf_set hk, h.once k' c]
    split_ifs with hkk
    · rw [← hkk, handOf_of_getElem? hk, ht]
    · rfl
  · simp only [ht] at hset
    omega

theorem Book.receive (h : Book inHand accepted (c :: line) received finished ts) (hk : ts[k]? = some t) (ht : inHand t = [])
    (ht' : inHand t' = [c]) : Book inHand accepted line (received ++ [(k, c)]) finished (ts.set k t') := by
  have hset := tally_set (fun t => (inHand t).length) hk t'
  have hsize := h.size
  refine ⟨?_, fun k' c' => ?_, ?_⟩
  · rw [← h.order]
    simp
  · rw [handOf_set hk, List.count_append, h.once k' c']
    split_ifs with hkk
    · rw [← hkk, handOf_of_getElem? hk, ht, ht']
      simp [List.count_singleton]
    · simp [hkk]
  · simp only [ht, ht', List.length_nil, List.length_singleton] at hset
    rw [List.length_append, List.length_singleton]
    omega

theorem Book.finish (h : Book inHand accepted line received finished ts) (hk : ts[k]? = some t) (ht : inHand t = [c])
    (ht' : inHand t' = []) : Book inHand accepted line received (finished ++ [(k, c)]) (ts.set k t') := by
  have hset := tally_set (fun t => (inHand t).length) hk t'
  have hsize := h.size
  refine ⟨h.order, fun k' c' => ?_, ?_⟩
  · rw [handOf_set hk, List.count_append, h.once k' c']
    split_ifs with hkk
    · rw [← hkk, handOf_of_getElem? hk, ht, ht']
      simp [List.count_singleton]
    · simp [hkk]
  · simp only [ht, ht', List.length_nil, List.length_singleton] at hset
    rw [List.length_append, List.length_singleton]
    omega

/-! ## What follows -/

theorem Book.accepted_eq (h : Book inHand accepted line received finished ts) : accepted = received.length + line.length := by
  have hlength := congrArg List.length h.order
  rw [List.length_append, List.length_map, List.length_range] at hlength
  exact hlength.symm

theorem Book.nodup_received (h : Book inHand accepted line received finished ts) : (received.map Prod.snd).Nodup := by
  have hrange : (List.range accepted).Nodup := List.nodup_range
  rw [← h.order] at hrange
  exact (List.nodup_append.1 hrange).1

theorem Book.nodup_finished (h : Book inHand accepted line received finished ts) : (finished.map Prod.snd).Nodup := by
  have hsub : finished.Subperm received := by
    rw [List.subperm_ext_iff]
    rintro ⟨k, c⟩ -
    rw [h.once k c]
    exact Nat.le_add_right _ _
  obtain ⟨l, hperm, hsub⟩ := hsub
  exact (hperm.map Prod.snd).nodup_iff.1 (h.nodup_received.sublist (hsub.map Prod.snd))

/-- **With one hand each**, and a line that is no longer than the buffer and the hand that fills it. -/
theorem Book.handedOver {handles : τ → ℕ} {d : ℕ} (h : Book inHand accepted line received finished ts)
    (hone : ∀ t, (inHand t).length ≤ 1) (hhandles : ∀ t, handles t ≤ 1) (hline : line.length ≤ d + 1) :
    HandedOver inHand handles ts.length d accepted line received finished ts := by
  refine ⟨h.order, h.nodup_received, h.once, h.nodup_finished, tally_le_length hhandles ts, ?_⟩
  have hsize := h.size
  have haccepted := h.accepted_eq
  have hle := tally_le_length hone ts
  omega

/-- Without a line, what is not finished is in somebody's hand. -/
theorem Book.exists_inHand (h : Book inHand accepted [] received finished ts) (hopen : finished.length < accepted) :
    ∃ (k : ℕ) (t : τ), ts[k]? = some t ∧ inHand t ≠ [] := by
  have haccepted := h.accepted_eq
  have hsize := h.size
  rw [List.length_nil] at haccepted
  obtain ⟨t, ht, hpos⟩ := tally_pos_iff.1 (show 0 < tally (fun t => (inHand t).length) ts by omega)
  obtain ⟨k, hk⟩ := List.mem_iff_getElem?.1 ht
  exact ⟨k, t, hk, List.length_pos_iff.1 hpos⟩

end ServiceProxy.Lib
