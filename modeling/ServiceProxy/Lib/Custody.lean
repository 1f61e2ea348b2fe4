import ServiceProxy.Lib.Threads
import Mathlib.Data.List.Nodup
import Mathlib.Data.List.Perm.Basic

/-!
# Who holds what

Things that exist are in a store or in the hands of threads.  `conn? t` is what the thread `t` holds.  `InOnePlace` says that
each of the things `all` is in exactly one place, and that nothing else is anywhere; threads may pass on what they hold,
take it from the store, put it there, make a new thing or destroy one.
-/

namespace ServiceProxy.Lib

variable {κ τ : Type*} [DecidableEq κ] {conn? : τ → Option κ}

/-- The thread holds `c`. -/
def holds (conn? : τ → Option κ) (c : κ) (t : τ) : ℕ := if conn? t = some c then 1 else 0

/-- Each of the things `all` is in exactly one place. -/
structure InOnePlace (conn? : τ → Option κ) (all store : List κ) (ts : List τ) : Prop where
  nodup : all.Nodup
  once : ∀ c, all.count c = store.count c + tally (holds conn? c) ts

variable {all store : List κ} {ts : List τ} {i j : ℕ} {t t' : τ} {c : κ}

theorem holds_of_some (h : conn? t = some c) (d : κ) : holds conn? d t = if c = d then 1 else 0 := by
  simp only [holds, h, Option.some.injEq]

theorem holds_of_none (h : conn? t = none) (d : κ) : holds conn? d t = 0 := by simp [holds, h]

theorem InOnePlace.keep (h : InOnePlace conn? all store ts) (hi : ts[i]? = some t) (hc : conn? t = conn? t') :
    InOnePlace conn? all store (ts.set i t') := by
  refine ⟨h.nodup, fun d => ?_⟩
  have h1 := tally_set (holds conn? d) hi t'
  have h2 := h.once d
  have h3 : holds conn? d t = holds conn? d t' := by simp only [holds, hc]
  omega

theorem InOnePlace.take {store' : List κ} (h : InOnePlace conn? all store ts) (hi : ts[i]? = some t)
    (hstore : store.Perm (c :: store')) (hc : conn? t = none) (hc' : conn? t' = some c) :
    InOnePlace conn? all store' (ts.set i t') := by
  refine ⟨h.nodup, fun d => ?_⟩
  have h1 := tally_set (holds conn? d) hi t'
  have h2 := h.once d
  rw [holds_of_none hc, holds_of_some hc'] at h1
  rw [hstore.count_eq, List.count_cons] at h2
  simp only [beq_iff_eq] at h2
  omega

theorem InOnePlace.give {store' : List κ} (h : InOnePlace conn? all store ts) (hi : ts[i]? = some t)
    (hstore : store'.Perm (c :: store)) (hc : conn? t = some c) (hc' : conn? t' = none) :
    InOnePlace conn? all store' (ts.set i t') := by
  refine ⟨h.nodup, fun d => ?_⟩
  have h1 := tally_set (holds conn? d) hi t'
  have h2 := h.once d
  rw [holds_of_some hc, holds_of_none hc'] at h1
  rw [hstore.count_eq, List.count_cons]
  simp only [beq_iff_eq]
  omega

theorem InOnePlace.make (h : InOnePlace conn? all store ts) (hi : ts[i]? = some t) (hnew : c ∉ all)
    (hc : conn? t = none) (hc' : conn? t' = some c) : InOnePlace conn? (c :: all) store (ts.set i t') := by
  refine ⟨List.nodup_cons.2 ⟨hnew, h.nodup⟩, fun d => ?_⟩
  have h1 := tally_set (holds conn? d) hi t'
  have h2 := h.once d
  rw [holds_of_none hc, holds_of_some hc'] at h1
  rw [List.count_cons]
  simp only [beq_iff_eq]
  omega

theorem InOnePlace.destroy (h : InOnePlace conn? all store ts) (hi : ts[i]? = some t) (hc : conn? t = some c)
    (hc' : conn? t' = none) : InOnePlace conn? (all.erase c) store (ts.set i t') := by
  refine ⟨h.nodup.erase c, fun d => ?_⟩
  have h1 := tally_set (holds conn? d) hi t'
  have h2 := h.once d
  rw [holds_of_some hc, holds_of_none hc'] at h1
  rw [List.count_erase, h2]
  by_cases hcd : c = d
  · subst hcd
    simp only [beq_self_eq_true, if_true] at h1 ⊢
    omega
  · simp only [hcd, if_false, beq_eq_false_iff_ne.2 hcd, Bool.false_eq_true] at h1 ⊢
    omega

theorem InOnePlace.come (h : InOnePlace conn? all store ts) (hc : conn? t = none) :
    InOnePlace conn? all store (ts ++ [t]) := by
  refine ⟨h.nodup, fun d => ?_⟩
  rw [h.once d]
  simp [holds_of_none hc]

/-- What a thread holds exists and is not in the store. -/
theorem InOnePlace.mem_of_holds (h : InOnePlace conn? all store ts) (hi : ts[i]? = some t) (hc : conn? t = some c) :
    c ∈ all ∧ c ∉ store := by
  have hle := le_tally (holds conn? c) hi
  have honce := h.once c
  have hnodup := List.nodup_iff_count_le_one.1 h.nodup c
  rw [holds_of_some hc, if_pos rfl] at hle
  exact ⟨List.count_pos_iff.1 (by omega), List.count_eq_zero.1 (by omega)⟩

/-- Only one thread holds it. -/
theorem InOnePlace.holder_unique (h : InOnePlace conn? all store ts) (hi : ts[i]? = some t) (hj : ts[j]? = some t')
    (hc : conn? t = some c) (hc' : conn? t' = some c) : i = j := by
  by_contra hij
  have hle := add_le_tally (holds conn? c) hi hj hij
  have honce := h.once c
  have hnodup := List.nodup_iff_count_le_one.1 h.nodup c
  rw [holds_of_some hc, holds_of_some hc', if_pos rfl] at hle
  omega

end ServiceProxy.Lib
