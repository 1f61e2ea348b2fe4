import ServiceProxy.Lib.Threads

/-!
# Slots behind a counter

At most `max` slots may be in use, and a counter says how many are.  A thread has a slot from the moment at which it has added
one to the counter until it has subtracted it again.  A thread that has found the counter at `max` has added one all the same
and takes it back, so the counter overshoots.

`slot t` is how many slots the thread `t` has, and `refused t` how many increments it is to take back; `idle` slots are in a
store, and `lost` ones are gone with the threads that had them.

* `Account` — what the counter counts in every state;
* `Account.set` — when it still holds after a thread has moved on;
* `Account.stay`, `lose`, `claim`, `refuse`, `release`, `takeBack`, `come` — what can happen to it;
* `Account.pos`, `Account.room` — who subtracts finds something to subtract, and who fills the store finds room.
-/

namespace ServiceProxy.Lib

variable {τ : Type*}

/-- **The account** of a counter that stands at `n`. -/
structure Account (slot refused : τ → ℕ) (max idle lost n : ℕ) (ts : List τ) : Prop where
  count : n = idle + tally slot ts + tally refused ts + lost
  bound : idle + tally slot ts + lost ≤ max

variable {slot refused : τ → ℕ} {max idle idle' lost lost' n n' i : ℕ} {ts : List τ} {t t' : τ}

theorem Account.pos (h : Account slot refused max idle lost n ts) (hi : ts[i]? = some t) (ht : 0 < slot t + refused t) :
    0 < n := by
  have hslot := le_tally slot hi
  have hrefused := le_tally refused hi
  have hcount := h.count
  omega

theorem Account.room (h : Account slot refused max idle lost n ts) (hi : ts[i]? = some t) (ht : 0 < slot t) : idle < max := by
  have hslot := le_tally slot hi
  have hbound := h.bound
  omega

/-! ## What can happen -/

theorem Account.set (h : Account slot refused max idle lost n ts) (hi : ts[i]? = some t)
    (hcount : n' + (idle + slot t + refused t + lost) = n + (idle' + slot t' + refused t' + lost'))
    (hbound : idle' + slot t' + lost' ≤ idle + slot t + lost ∨ n' ≤ max) :
    Account slot refused max idle' lost' n' (ts.set i t') := by
  have hset := tally_set slot hi t'
  have hset' := tally_set refused hi t'
  obtain ⟨hn, hmax⟩ := h
  exact ⟨by omega, by omega⟩

/-- A slot moves between the thread, the store and what is lost, or stays where it is. -/
theorem Account.stay (h : Account slot refused max idle lost n ts) (hi : ts[i]? = some t)
    (hslot : idle' + slot t' + lost' = idle + slot t + lost) (hrefused : refused t' = refused t) :
    Account slot refused max idle' lost' n (ts.set i t') :=
  h.set hi (by omega) (.inl hslot.le)

theorem Account.lose (h : Account slot refused max idle lost n ts) (hi : ts[i]? = some t) (hslot : slot t = slot t' + 1)
    (hrefused : refused t' = refused t) : Account slot refused max idle (lost + 1) n (ts.set i t') :=
  h.stay hi (by omega) hrefused

/-- The counter was below `max`. -/
theorem Account.claim (h : Account slot refused max idle lost n ts) (hi : ts[i]? = some t) (hn : n < max)
    (hslot : slot t' = slot t + 1) (hrefused : refused t' = refused t) :
    Account slot refused max idle lost (n + 1) (ts.set i t') :=
  h.set hi (by omega) (.inr hn)

theorem Account.refuse (h : Account slot refused max idle lost n ts) (hi : ts[i]? = some t) (hslot : slot t' = slot t)
    (hrefused : refused t' = refused t + 1) : Account slot refused max idle lost (n + 1) (ts.set i t') :=
  h.set hi (by omega) (.inl (by omega))

theorem Account.release (h : Account slot refused max idle lost n ts) (hi : ts[i]? = some t) (hslot : slot t = slot t' + 1)
    (hrefused : refused t' = refused t) : Account slot refused max idle lost (n - 1) (ts.set i t') := by
  have hpos := h.pos hi (show 0 < slot t + refused t by omega)
  exact h.set hi (by omega) (.inl (by omega))

theorem Account.takeBack (h : Account slot refused max idle lost n ts) (hi : ts[i]? = some t) (hslot : slot t' = slot t)
    (hrefused : refused t = refused t' + 1) : Account slot refused max idle lost (n - 1) (ts.set i t') := by
  have hpos := h.pos hi (show 0 < slot t + refused t by omega)
  exact h.set hi (by omega) (.inl (by omega))

theorem Account.come (h : Account slot refused max idle lost n ts) (hslot : slot t = 0) (hrefused : refused t = 0) :
    Account slot refused max idle lost n (ts ++ [t]) := by
  obtain ⟨hcount, hbound⟩ := h
  constructor
  · rw [tally_append, tally_append, tally_cons, tally_cons, tally_nil, tally_nil, hslot, hrefused]
    exact hcount
  · rw [tally_append, tally_cons, tally_nil, hslot]
    exact hbound

end ServiceProxy.Lib
