import ServiceProxy.Lib.Exchange

/-!
# Exchanges over pooled connections are correct

A connection is free, and then it is settled, or it is lent to one call, which knows where its exchange stands
(`Conducts`): nothing is sent, a part of the request is sent and nothing is in flight, or the request is answered and what
arrived and what is in flight are the answer.  `Conducts.conduct` and `Conducts.serve` say that the steps of the call and
of the server keep this, `Invariant` joins it with the discipline of the pool.

`run_correct`: with a sound reader and requests that are delimited, every run is correct.  `run_answered`: what a call returns
is an answer that the server gives to such a request (`Lawful`).
-/

namespace ServiceProxy.Lib.Exchange

variable {α κ Q A R E σ ε : Type}

/-! ## One connection in the hands of a call -/

/-- So many bytes of the request `msg` are sent and not answered, and nothing is in flight. -/
structure Asked (msg : List α) (start sent : ℕ) (l : Link α A) : Prop where
  flight : l.flight = []
  answered : consumed l.log = start
  input : ∃ old, l.input = old ++ msg.take sent ∧ old.length = start

/-- The request `msg` is answered, and `got` is the part of the answer that has arrived. -/
def Answered (p : Protocol α Q A R E) (Good : A → Prop) (msg : List α) (start : ℕ) (got : List α) (l : Link α A) : Prop :=
  ∃ log a, Good a ∧ l.log = log ++ [⟨msg, a⟩] ∧ consumed log = start ∧ consumed l.log = l.input.length ∧
    got ++ l.flight = p.bytes a

/-- What a call with the request `msg` knows of its connection `c`. -/
def Conducts (p : Protocol α Q A R E) (Good : A → Prop) (msg : List α) (c : κ) (l : Link α A) :
    Option (Call κ α R) → Prop
  | none => l.Settled
  | some call => call.conn = c ∧
    match call.phase with
    | .writing sent => sent ≤ msg.length ∧
        (Asked msg call.start sent l ∨ sent = msg.length ∧ Answered p Good msg call.start [] l)
    | .reading segs => (∀ seg ∈ segs, seg ≠ []) ∧
        (segs = [] ∧ Asked msg call.start msg.length l ∨ Answered p Good msg call.start segs.flatten l)
    | .returned _ => l.Settled
    | .failed | .panicked => True

section Link

variable {p : Protocol α Q A R E} {Good : A → Prop} {Matches : A → R → Prop} {msg : List α} {start sent : ℕ}
  {l l' : Link α A}

theorem Link.Settled.asked (h : l.Settled) (msg : List α) : Asked msg l.input.length 0 l :=
  ⟨h.1, h.2, l.input, by simp, rfl⟩

theorem Asked.write (h : Asked msg start sent l) (n : ℕ) :
    Asked msg start (sent + n) { l with input := l.input ++ (msg.drop sent).take n } := by
  obtain ⟨hflight, hans, old, hinput, hold⟩ := h
  refine ⟨hflight, hans, old, ?_, hold⟩
  simp only [hinput, List.append_assoc, List.append_cancel_left_eq]
  exact List.take_add.symm

theorem Asked.unanswered (h : Asked msg start sent l) : l.unanswered = msg.take sent := by
  obtain ⟨-, hans, old, hinput, hold⟩ := h
  unfold Link.unanswered
  rw [hans, hinput, ← hold, List.drop_left]

theorem Asked.serve {q : Q} {a : A} (hq : Delimited p q) (h : Asked (p.encode q) start sent l)
    (hsent : sent ≤ (p.encode q).length) (ha : Good a) (hs : l.serve p a = some l') :
    sent = (p.encode q).length ∧ Answered p Good (p.encode q) start [] l' := by
  unfold Link.serve at hs
  split at hs
  · cases hs
  · obtain ⟨k, hk, rfl⟩ := Option.map_eq_some_iff.1 hs
    rw [h.unanswered] at hk
    obtain ⟨hle, rfl⟩ := hq _ _ hk
    obtain rfl : sent = (p.encode q).length := by omega
    obtain ⟨old, hinput, hold⟩ := h.input
    have htake : l.unanswered.take (p.encode q).length = p.encode q := by
      rw [h.unanswered, List.take_length, List.take_length]
    refine ⟨rfl, l.log, a, ha, by rw [htake], h.answered, ?_, by simp [h.flight]⟩
    simp only [htake, consumed_append, consumed_one, h.answered, hinput, List.length_append, List.take_length, hold]

/-- There is nothing to answer on a connection where every request is answered. -/
theorem Link.serve_eq_none (hsound : Sound p Good Matches) (h : consumed l.log = l.input.length) (a : A) :
    l.serve p a = none := by
  unfold Link.serve
  rw [Link.unanswered_eq_nil h, hsound.delimit_nil]
  split <;> rfl

/-- **The server's step keeps what a call knows.** -/
theorem Conducts.serve {q : Q} {a : A} {c : κ} {call : Option (Call κ α R)} (hsound : Sound p Good Matches)
    (hq : Delimited p q) (h : Conducts p Good (p.encode q) c l call) (ha : Good a) (hs : l.serve p a = some l') :
    Conducts p Good (p.encode q) c l' call := by
  have hunanswered : consumed l.log ≠ l.input.length := by
    intro heq
    rw [Link.serve_eq_none hsound heq] at hs
    cases hs
  cases call with
  | none => exact absurd h.2 hunanswered
  | some call =>
    obtain ⟨c', start, phase⟩ := call
    obtain ⟨hc, h⟩ := h
    refine ⟨hc, ?_⟩
    cases phase with
    | writing sent =>
      obtain ⟨hsent, hasked | ⟨-, log, a', -, -, -, heq, -⟩⟩ := h
      · exact ⟨hsent, .inr (hasked.serve hq hsent ha hs)⟩
      · exact absurd heq hunanswered
    | reading segs =>
      obtain ⟨hne, ⟨rfl, hasked⟩ | ⟨log, a', -, -, -, heq, -⟩⟩ := h
      · exact ⟨hne, .inr (hasked.serve hq (Nat.le_refl _) ha hs).2⟩
      · exact absurd heq hunanswered
    | returned r => exact absurd h.2 hunanswered
    | failed => trivial
    | panicked => trivial

theorem Conducts.close {c : κ} {call : Option (Call κ α R)} (h : Conducts p Good msg c l call) :
    Conducts p Good msg c { l with closed := true } call := by
  cases call with
  | none => exact h
  | some call =>
    obtain ⟨c', start, phase⟩ := call
    obtain ⟨hc, h⟩ := h
    refine ⟨hc, ?_⟩
    cases phase with
    | writing sent => exact h.imp_right (Or.imp (fun h => ⟨h.1, h.2, h.3⟩) id)
    | reading segs => exact h.imp_right (Or.imp (And.imp_right fun h => ⟨h.1, h.2, h.3⟩) id)
    | _ => exact h

end Link

section Reading

variable {p : Protocol α Q A R E} {Good : A → Prop} {Matches : A → R → Prop} {msg : List α} {start : ℕ}
  {l l' : Link α A} {segs : List (List α)} {c : κ}

theorem Answered.outcome {e : Ending} {rest : List α} (hsound : Sound p Good Matches) (hne : ∀ seg ∈ segs, seg ≠ [])
    (h : Answered p Good msg start segs.flatten { l with flight := rest }) (he : e = .open ∨ e = .eof ∧ rest = []) :
    Conducts p Good msg c { l with flight := (outcome segs rest (p.read ⟨segs, e⟩)).1 }
        (some ⟨c, start, (outcome segs rest (p.read ⟨segs, e⟩)).2⟩) ∧
      ∀ r, (outcome segs rest (p.read ⟨segs, e⟩)).2 = .returned r → Exchanged Matches l start msg r := by
  cases hread : p.read ⟨segs, e⟩ with
  | ok x =>
    obtain ⟨r, left⟩ := x
    obtain ⟨log, a, ha, hlog, hstart, hall, hbytes⟩ := h
    obtain ⟨rfl, rfl, hmatch⟩ := hsound.read_exact ha hne hbytes he hread
    refine ⟨⟨rfl, rfl, hall⟩, fun r' hr => ?_⟩
    obtain rfl : r = r' := by simpa [Exchange.outcome] using hr
    exact ⟨log, a, [], hlog, hstart, hmatch⟩
  | error halt =>
    cases halt with
    | pending => exact ⟨⟨rfl, hne, .inr h⟩, fun r hr => by simp [Exchange.outcome] at hr⟩
    | err _ => exact ⟨⟨rfl, trivial⟩, fun r hr => by simp [Exchange.outcome] at hr⟩
    | panic => exact ⟨⟨rfl, trivial⟩, fun r hr => by simp [Exchange.outcome] at hr⟩

/-- Before the answer the reader returns nothing. -/
theorem Asked.outcome (hsound : Sound p Good Matches) (h : Asked msg start msg.length l) :
    Conducts p Good msg c { l with flight := (outcome [] l.flight (p.read ⟨[], .eof⟩)).1 }
        (some ⟨c, start, (outcome [] l.flight (p.read ⟨[], .eof⟩)).2⟩) ∧
      ∀ r, (outcome [] l.flight (p.read ⟨[], .eof⟩)).2 = .returned r → Exchanged Matches l start msg r := by
  cases hread : p.read ⟨[], .eof⟩ with
  | ok x => exact absurd hread (hsound.read_nil x)
  | error halt =>
    cases halt with
    | pending => exact ⟨⟨rfl, by simp, .inl ⟨rfl, h.1, h.2, h.3⟩⟩, fun r hr => by simp [Exchange.outcome] at hr⟩
    | err _ => exact ⟨⟨rfl, trivial⟩, fun r hr => by simp [Exchange.outcome] at hr⟩
    | panic => exact ⟨⟨rfl, trivial⟩, fun r hr => by simp [Exchange.outcome] at hr⟩

theorem Conducts.write {sent n : ℕ} (h : Conducts p Good msg c l (some ⟨c, start, .writing sent⟩))
    (hlen : sent + n ≤ msg.length) :
    Conducts (R := R) p Good msg c { l with input := l.input ++ (msg.drop sent).take n }
      (some ⟨c, start, .writing (sent + n)⟩) := by
  obtain ⟨-, -, hasked | ⟨hsent, hans⟩⟩ := h
  · exact ⟨rfl, hlen, .inl (hasked.write n)⟩
  · -- the request is complete: nothing was left to write
    obtain rfl : n = 0 := by omega
    refine ⟨rfl, hlen, .inr ⟨hsent, ?_⟩⟩
    simpa using hans

theorem Answered.recv {n : ℕ} (h : Answered p Good msg start segs.flatten l) :
    Answered p Good msg start (segs ++ [l.flight.take n]).flatten { l with flight := l.flight.drop n } := by
  obtain ⟨log, a, ha, hlog, hstart, hall, hbytes⟩ := h
  refine ⟨log, a, ha, hlog, hstart, hall, ?_⟩
  simpa using hbytes

theorem ne_nil_of_mem_segs {bs : List α} {n : ℕ} (hne : ∀ seg ∈ segs, seg ≠ []) (hn : 0 < n ∧ n ≤ bs.length) :
    ∀ seg ∈ segs ++ [bs.take n], seg ≠ [] := by
  intro seg hseg
  rcases List.mem_append.1 hseg with hseg | hseg
  · exact hne seg hseg
  · obtain rfl := List.mem_singleton.1 hseg
    apply List.ne_nil_of_length_pos
    rw [List.length_take]
    omega

/-- **A step of a call keeps what it knows**, and a response is the one to its request. -/
theorem Conducts.conduct {call : Call κ α R} {a : Act} {phase : Phase α R} (hsound : Sound p Good Matches)
    (h : Conducts p Good msg c l (some call)) (hs : conduct p msg l call.phase a = some (l', phase)) :
    Conducts p Good msg c l' (some { call with phase }) ∧ l'.log = l.log ∧
      ∀ r, phase = .returned r → Exchanged Matches l' call.start msg r := by
  obtain ⟨c', start, phase₀⟩ := call
  obtain rfl : c' = c := h.1
  simp only at hs ⊢
  unfold Exchange.conduct at hs
  split at hs
  · -- `write`
    split at hs
    · obtain ⟨rfl, rfl⟩ := Prod.mk.inj (Option.some.inj hs)
      exact ⟨h.write ‹_›, rfl, by simp⟩
    · cases hs
  · -- `writeErr`
    obtain ⟨rfl, rfl⟩ := Prod.mk.inj (Option.some.inj hs)
    exact ⟨⟨rfl, trivial⟩, rfl, by simp⟩
  · -- `flush`
    split at hs
    · rename_i hsent
      subst hsent
      obtain ⟨rfl, rfl⟩ := Prod.mk.inj (Option.some.inj hs)
      exact ⟨⟨rfl, by simp, h.2.2.imp (fun h => ⟨rfl, h⟩) And.right⟩, rfl, by simp⟩
    · cases hs
  · -- `recv`
    split at hs
    · rename_i hn
      obtain ⟨rfl, rfl⟩ := Prod.mk.inj (Option.some.inj hs)
      obtain ⟨-, hne, ⟨-, hasked⟩ | hans⟩ := h
      · -- before the answer nothing is in flight
        rw [hasked.flight, List.length_nil] at hn
        omega
      · obtain ⟨hcond, hret⟩ := hans.recv.outcome (c := c') hsound (ne_nil_of_mem_segs hne hn) (.inl rfl)
        exact ⟨hcond, rfl, hret⟩
    · cases hs
  · -- `recvEof`
    split at hs
    · rename_i he
      obtain ⟨rfl, rfl⟩ := Prod.mk.inj (Option.some.inj hs)
      obtain ⟨-, hne, ⟨rfl, hasked⟩ | hans⟩ := h
      · obtain ⟨hcond, hret⟩ := hasked.outcome (c := c') hsound
        exact ⟨hcond, rfl, hret⟩
      · obtain ⟨hcond, hret⟩ := hans.outcome (c := c') hsound hne (.inr ⟨rfl, he.2⟩)
        exact ⟨hcond, rfl, hret⟩
    · cases hs
  · -- `recvErr`
    obtain ⟨rfl, rfl⟩ := Prod.mk.inj (Option.some.inj hs)
    exact ⟨⟨rfl, trivial⟩, rfl, by simp⟩
  · cases hs

end Reading

/-! ## The invariant -/

/-- **The invariant**: what may be lent is settled, and every call with a connection knows where its exchange stands. -/
structure Invariant {P : Pooling σ ε κ} (D : Discipline P) (p : Protocol α Q A R E) (reqs : ℕ → Q) (Good : A → Prop)
    (Matches : A → R → Prop) (s : Net σ κ α A R) : Prop where
  pool : D.Inv s.pool
  free : ∀ c, D.Free s.pool c → (s.links c).Settled
  fresh : ∀ i, D.getting s.pool i → s.calls i = none
  lent : ∀ i c, P.user s.pool i = some c → Conducts p Good (p.encode (reqs i)) c (s.links c) (s.calls i)
  exchanged : ∀ i call r, s.calls i = some call → call.phase = .returned r →
    Exchanged Matches (s.links call.conn) call.start (p.encode (reqs i)) r

section Invariant

variable [DecidableEq κ] {P : Pooling σ ε κ} {D : Discipline P} {p : Protocol α Q A R E} {reqs : ℕ → Q}
  {Good : A → Prop} {Matches : A → R → Prop} {s t : Net σ κ α A R}

theorem Exchanged.grow {l l' : Link α A} {start : ℕ} {msg : List α} {r : R} (h : Exchanged Matches l start msg r)
    (hlog : l.log <+: l'.log) : Exchanged Matches l' start msg r := by
  obtain ⟨log, a, later, hl, hstart, hmatch⟩ := h
  obtain ⟨more, hmore⟩ := hlog
  exact ⟨log, a, later ++ more, by simp [← hmore, hl], hstart, hmatch⟩

/-- A response stays the right one when the log of a connection grows. -/
theorem Exchanged.update {links : κ → Link α A} {c d : κ} {l : Link α A} {start : ℕ} {msg : List α} {r : R}
    (h : Exchanged Matches (links d) start msg r) (hlog : (links c).log <+: l.log) :
    Exchanged Matches (Function.update links c l d) start msg r := by
  by_cases hd : d = c
  · subst hd
    rw [Function.update_self]
    exact h.grow hlog
  · rwa [Function.update_of_ne hd]

theorem Invariant.server (h : Invariant D p reqs Good Matches s) {c : κ} {l : Link α A}
    (hsettled : (s.links c).Settled → l.Settled)
    (hcond : ∀ i call, Conducts p Good (p.encode (reqs i)) c (s.links c) call →
      Conducts p Good (p.encode (reqs i)) c l call)
    (hlog : (s.links c).log <+: l.log) :
    Invariant D p reqs Good Matches { s with links := Function.update s.links c l } where
  pool := h.pool
  free := by
    intro d hd
    have := h.free d hd
    by_cases hdc : d = c
    · subst hdc
      simpa using hsettled this
    · simpa [Function.update_of_ne hdc] using this
  fresh := h.fresh
  lent := by
    intro i d hi
    have := h.lent i d hi
    by_cases hdc : d = c
    · subst hdc
      simpa using hcond i _ this
    · simpa [Function.update_of_ne hdc] using this
  exchanged := fun i call r hi hr => (h.exchanged i call r hi hr).update hlog

theorem Invariant.client (h : Invariant D p reqs Good Matches s) {i : ℕ} {c : κ} {l : Link α A} {call : Call κ α R}
    (hi : P.user s.pool i = some c) (hcond : Conducts p Good (p.encode (reqs i)) c l (some call))
    (hlog : (s.links c).log <+: l.log)
    (hret : ∀ r, call.phase = .returned r → Exchanged Matches l call.start (p.encode (reqs i)) r) :
    Invariant D p reqs Good Matches
      { s with links := Function.update s.links c l, calls := Function.update s.calls i (some call) } where
  pool := h.pool
  free := by
    intro d hd
    have hdc : d ≠ c := by
      rintro rfl
      exact D.not_free h.pool hi hd
    simpa [Function.update_of_ne hdc] using h.free d hd
  fresh := by
    intro j hj
    have hji : j ≠ i := by
      rintro rfl
      exact D.not_getting hi hj
    simpa [Function.update_of_ne hji] using h.fresh j hj
  lent := by
    intro j d hj
    by_cases hji : j = i
    · subst hji
      obtain rfl : c = d := Option.some.inj (hi.symm.trans hj)
      simpa using hcond
    · -- the connection is lent to one call
      have hdc : d ≠ c := by
        rintro rfl
        exact hji (D.exclusive h.pool hj hi)
      simpa [Function.update_of_ne hji, Function.update_of_ne hdc] using h.lent j d hj
  exchanged := by
    intro j call' r hj hr
    by_cases hji : j = i
    · subst hji
      obtain rfl : call = call' := by simpa using hj
      have hconn : call.conn = c := hcond.1
      simpa [hconn] using hret r hr
    · simp only [Function.update_of_ne hji] at hj
      exact (h.exchanged j call' r hj hr).update hlog

omit [DecidableEq κ] in
/-- The pool takes a step, and what it makes free is settled. -/
theorem Invariant.pooled (h : Invariant D p reqs Good Matches s) {e : ε} {pool : σ} (hs : P.step s.pool e = some pool)
    (hfree : ∀ i c, P.user s.pool i = some c → e = P.put i true → (s.links c).Settled) :
    Invariant D p reqs Good Matches { s with pool } := by
  refine ⟨D.inv_step h.pool hs, fun c hc => ?_, fun i hi => h.fresh i (D.getting_step hs hi), fun i c hi => ?_,
    h.exchanged⟩
  · rcases D.free_step h.pool hs hc with hc | ⟨i, hi, he⟩
    · exact h.free c hc
    · exact hfree i c hi he
  · rcases D.user_step h.pool hs hi with hi | ⟨hget, hc⟩
    · exact h.lent i c hi
    · -- a call that gets a connection gets a settled one
      rw [h.fresh i hget]
      exact h.free c hc

/-- **Every step keeps the invariant.** -/
theorem invariant_step {e : Ev ε κ A} (hsound : Sound p Good Matches) (hq : ∀ i, Delimited p (reqs i))
    (h : Invariant D p reqs Good Matches s) (ha : ∀ c a, e = .serve c a → Good a) (hs : step P p reqs s e = some t) :
    Invariant D p reqs Good Matches t := by
  cases stepped_of_step hs with
  | pool hput hstep =>
    refine h.pooled hstep fun i c _ he => ?_
    rw [he, D.isPut_put] at hput
    cases hput
  | @start i c hi hnone =>
    have hsettled := h.lent i c hi
    rw [hnone] at hsettled
    have hcond : Conducts p Good (p.encode (reqs i)) c (s.links c)
        (some ⟨c, (s.links c).input.length, .writing 0⟩) :=
      ⟨rfl, Nat.zero_le _, .inl (hsettled.asked _)⟩
    have := h.client hi hcond (List.prefix_refl _) (by simp)
    simpa using this
  | @call i a c call l phase hi hcall hconduct =>
    have hcond := h.lent i c hi
    rw [hcall] at hcond
    obtain ⟨hcond', hlog, hret⟩ := hcond.conduct hsound hconduct
    exact h.client hi hcond' (hlog ▸ List.prefix_refl _) hret
  | @putHealthy i c start r pool hcall hstep =>
    refine h.pooled hstep fun j d hj he => ?_
    obtain ⟨rfl, -⟩ := D.put_inj he
    have hcond := h.lent i d hj
    rw [hcall] at hcond
    exact hcond.2
  | putBroken hcall hstep =>
    refine h.pooled hstep fun j d hj he => ?_
    obtain ⟨-, hfalse⟩ := D.put_inj he
    cases hfalse
  | @serve c a l hserve =>
    refine h.server (fun hsettled => ?_) (fun i call hcond => hcond.serve hsound (hq i) (ha c a rfl) hserve) ?_
    · rw [Link.serve_eq_none hsound hsettled.2] at hserve
      cases hserve
    · unfold Link.serve at hserve
      split at hserve
      · cases hserve
      · obtain ⟨n, -, rfl⟩ := Option.map_eq_some_iff.1 hserve
        exact List.prefix_append _ _
  | close => exact h.server id (fun i call hcond => hcond.close) (List.prefix_refl _)

omit [DecidableEq κ] in
theorem invariant_new {s₀ : σ} (hInv : D.Inv s₀) (huser : ∀ i, P.user s₀ i = none) :
    Invariant D p reqs Good Matches (Net.new s₀) where
  pool := hInv
  free := fun _ _ => Link.settled_new
  fresh := fun _ _ => rfl
  lent := by
    intro i c hi
    exact absurd (hi.symm.trans (huser i)) (by simp)
  exchanged := by
    intro i call r hi
    cases hi

/-- **Pooled exchanges are correct**: in every run in which the server gives only good answers, every response belongs to
the request of its call and every idle connection is settled. -/
theorem run_correct {S : Net σ κ α A R → Ev ε κ A → Prop} {s₀ : σ} {es : List (Ev ε κ A)} (D : Discipline P)
    (hsound : Sound p Good Matches) (hq : ∀ i, Delimited p (reqs i)) (hS : ∀ u c a, S u (.serve c a) → Good a)
    (hInv : D.Inv s₀) (huser : ∀ i, P.user s₀ i = none) (h : Run (step P p reqs) S (Net.new s₀) es t) :
    Correct P p reqs Matches t := by
  have hinv : Invariant D p reqs Good Matches t := by
    refine h.invariant (invariant_new hInv huser) fun u e v hu hP hs => ?_
    refine invariant_step hsound hq hu (fun c a he => ?_) hs
    subst he
    exact hS u c a hP
  refine ⟨hinv.exchanged, fun i c call r hi hcall hr => ?_, fun c hc => hinv.free c (D.free_of_idle hc)⟩
  have hcond := hinv.lent i c hi
  rw [hcall] at hcond
  simp only [Conducts, hr] at hcond
  exact hcond.2

end Invariant

/-! ## What the server answers -/

section Lawful

variable [DecidableEq κ] {P : Pooling σ ε κ} {p : Protocol α Q A R E} {reqs : ℕ → Q} {L : List α → A → Prop}
  {s t : Net σ κ α A R}

/-- The answer `a` to the next request on the connection is one that `L` allows. -/
def AnswersNext (p : Protocol α Q A R E) (L : List α → A → Prop) (l : Link α A) (a : A) : Prop :=
  ∀ n, p.delimit l.unanswered = some n → L (l.unanswered.take n) a

instance (p : Protocol α Q A R E) (L : List α → A → Prop) [∀ msg a, Decidable (L msg a)] (l : Link α A) (a : A) :
    Decidable (AnswersNext p L l a) :=
  match h : p.delimit l.unanswered with
  | none => isTrue fun n hn => by rw [h] at hn; cases hn
  | some n =>
    decidable_of_iff (L (l.unanswered.take n) a)
      ⟨fun hL n' hn' => by
        obtain rfl := Option.some.inj (h.symm.trans hn')
        exact hL, fun hnext => hnext n h⟩

/-- The server gives the answer `a` to the request `msg` only if `L msg a`. -/
def Lawful (p : Protocol α Q A R E) (L : List α → A → Prop) (s : Net σ κ α A R) : Ev ε κ A → Prop
  | .serve c a => AnswersNext p L (s.links c) a
  | _ => True

/-- Every answer in the log is lawful. -/
def Logged (L : List α → A → Prop) (l : Link α A) : Prop := ∀ e ∈ l.log, L e.request e.answer

omit [DecidableEq κ] in
theorem logged_new : Logged L (Link.new : Link α A) := by
  intro e he
  cases he

theorem log_conduct {msg : List α} {l l' : Link α A} {phase phase' : Phase α R} {a : Act}
    (h : conduct p msg l phase a = some (l', phase')) : l'.log = l.log := by
  unfold conduct at h
  split at h
  case h_7 => cases h
  case h_2 | h_6 =>
    obtain ⟨rfl, -⟩ := Prod.mk.inj (Option.some.inj h)
    rfl
  all_goals
    split_ifs at h
    obtain ⟨rfl, -⟩ := Prod.mk.inj (Option.some.inj h)
    rfl

theorem logged_serve {l l' : Link α A} {a : A} (h : Logged L l)
    (ha : AnswersNext p L l a) (hs : l.serve p a = some l') : Logged L l' := by
  unfold Link.serve at hs
  split at hs
  · cases hs
  · obtain ⟨n, hn, rfl⟩ := Option.map_eq_some_iff.1 hs
    intro e he
    rcases List.mem_append.1 he with he | he
    · exact h e he
    · obtain rfl := List.mem_singleton.1 he
      exact ha n hn

/-- **Every step of a lawful server keeps the logs lawful.** -/
theorem logged_step {e : Ev ε κ A} (h : ∀ c, Logged L (s.links c)) (he : Lawful p L s e)
    (hs : step P p reqs s e = some t) (c : κ) : Logged L (t.links c) := by
  have hupdate : ∀ d (l : Link α A), Logged L l → Logged L (Function.update s.links d l c) := by
    intro d l hl
    by_cases hd : c = d
    · subst hd
      rwa [Function.update_self]
    · rw [Function.update_of_ne hd]
      exact h c
  cases stepped_of_step hs with
  | pool | start | putHealthy | putBroken => exact h c
  | @call i a d call l phase huser hcall hconduct =>
    refine hupdate d l ?_
    rw [Logged, log_conduct hconduct]
    exact h d
  | @serve d a l hserve => exact hupdate d l (logged_serve (h d) he hserve)
  | @close d => exact hupdate d _ (h d)

/-- **What a call returns, a lawful server has answered to its request.** -/
theorem run_answered {Good : A → Prop} {Matches : A → R → Prop} {S : Net σ κ α A R → Ev ε κ A → Prop} {s₀ : σ}
    {es : List (Ev ε κ A)} (D : Discipline P) (hsound : Sound p Good Matches) (hq : ∀ i, Delimited p (reqs i))
    (hS : ∀ u c a, S u (.serve c a) → Good a ∧ Lawful p L u (.serve c a : Ev ε κ A)) (hInv : D.Inv s₀)
    (huser : ∀ i, P.user s₀ i = none) (h : Run (step P p reqs) S (Net.new s₀) es t) {i : ℕ} {call : Call κ α R} {r : R}
    (hcall : t.calls i = some call) (hr : call.phase = .returned r) : ∃ a, L (p.encode (reqs i)) a ∧ Matches a r := by
  have hcorrect := run_correct D hsound hq (fun u c a hu => (hS u c a hu).1) hInv huser h
  obtain ⟨log, a, later, hlog, -, hmatch⟩ := hcorrect.exchanged i call r hcall hr
  have hlogged : ∀ c, Logged L (t.links c) := by
    refine h.invariant (I := fun s => ∀ c, Logged L (s.links c)) (fun _ => logged_new) fun u e v hu hP hs => ?_
    refine logged_step hu ?_ hs
    cases e with
    | serve c a => exact (hS u c a hP).2
    | _ => trivial
  exact ⟨a, hlogged call.conn ⟨p.encode (reqs i), a⟩ (by rw [hlog]; simp), hmatch⟩

/-! ## What is made of a response -/

/-- The response that is handed on for the call `i` is the one that the call has got. -/
def HandsOn (t : Net σ κ α A R) (i : ℕ) (x : Except E R) : Prop :=
  ∀ r, x = .ok r → ∃ call, t.calls i = some call ∧ call.phase = .returned r

omit [DecidableEq κ] in
theorem handsOn_of_returned {i : ℕ} {x : Except E R} {r : R} (hx : x = .ok r)
    (hphase : (t.calls i).map (fun call => call.phase) = some (.returned r)) : HandsOn t i x := by
  obtain ⟨call, hcall, hphase⟩ := Option.map_eq_some_iff.1 hphase
  intro r' hr'
  obtain rfl := Except.ok.inj (hx.symm.trans hr')
  exact ⟨call, hcall, hphase⟩

end Lawful

end ServiceProxy.Lib.Exchange
