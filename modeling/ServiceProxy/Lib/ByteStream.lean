import Mathlib.Algebra.Order.Ring.Nat
import Mathlib.Data.List.Basic

/-!
# Reading a stream through a buffer

What arrives on a connection is a list of segments, one for each `read` that has enough room, and an `Ending`: what a
`read` finds after the last of them.  `BufReader` is a buffered reader over such a stream, with the two operations
`readUntil` and `readExact`; both ask the stream only when the buffer is empty.

How the bytes were cut into segments does not matter: `Plain` is the same two operations on the bytes in one piece, and
`readUntil_sim`, `readExact_sim` say that the buffered reader does what the plain one does.  What does depend on the
segments is how many bytes were taken off the stream; when they come one by one, the buffer is empty between two
operations (the flag `T` of `Reads`).
-/

namespace ServiceProxy.Lib

universe u

variable {α σ τ : Type u} {ε : Type*}

/-! ## Outcomes -/

/-- What a `read` finds after the last byte: the end of the stream, nothing yet, or an error. -/
inductive Ending
  | eof | «open» | failed
  deriving DecidableEq, Repr

/-- The kinds of `std::io::Error` that the readers tell apart. -/
inductive IoError
  | unexpectedEof | invalidData | other
  deriving DecidableEq, Repr

/-- Why a computation has no result: it failed, it waits for bytes, or it panicked. -/
inductive Halt (ε : Type*)
  | err (e : ε) | pending | panic
  deriving DecidableEq, Repr

/-- `?` with the conversion `f` of errors. -/
def Halt.map {ε ε' : Type*} (f : ε → ε') : Halt ε → Halt ε'
  | .err e => .err (f e)
  | .pending => .pending
  | .panic => .panic

/-- There was no panic: an error, or bytes are missing on a connection that is open. -/
def Halt.Regular {ε : Type*} (e : Ending) : Halt ε → Prop
  | .err _ => True
  | .pending => e = .open
  | .panic => False

theorem Halt.regular_map {ε ε' : Type*} {e : Ending} {f : ε → ε'} {a : Halt ε} : (a.map f).Regular e ↔ a.Regular e := by
  cases a <;> rfl

theorem Halt.Regular.err {ε : Type*} {e : Ending} {a : Halt ε} (h : a.Regular e) (he : e ≠ .open) : ∃ x, a = .err x := by
  cases a with
  | err x => exact ⟨x, rfl⟩
  | pending => exact absurd h he
  | panic => exact h.elim

abbrev Io (α : Type u) := Except (Halt IoError) α

theorem bind_eq_ok {β γ : Type u} {x : Except ε β} {f : β → Except ε γ} {c : γ} :
    x >>= f = .ok c ↔ ∃ b, x = .ok b ∧ f b = .ok c := by
  cases x with
  | error => simp [bind, Except.bind]
  | ok b => simp [bind, Except.bind]

theorem bind_eq_error {β γ : Type u} {x : Except ε β} {f : β → Except ε γ} {e : ε} :
    x >>= f = .error e ↔ x = .error e ∨ ∃ b, x = .ok b ∧ f b = .error e := by
  cases x with
  | error => simp [bind, Except.bind]
  | ok b => simp [bind, Except.bind]

theorem mapError_eq_ok {β : Type u} {ε' : Type*} {x : Except ε β} {f : ε → ε'} {b : β} :
    x.mapError f = .ok b ↔ x = .ok b := by
  cases x <;> simp [Except.mapError]

theorem mapError_eq_error {β : Type u} {ε' : Type*} {x : Except ε β} {f : ε → ε'} {a : ε'} :
    x.mapError f = .error a ↔ ∃ b, x = .error b ∧ f b = a := by
  cases x <;> simp [Except.mapError]

/-- The second computation does what the first one does: it gives the same value and ends in a related state, or it
fails in the same way.  Under `L` a first computation that only waits promises nothing. -/
def Sim {β : Type u} (L : Prop) (R : σ → τ → Prop) (x : Except (Halt ε) (β × σ)) (y : Except (Halt ε) (β × τ)) : Prop :=
  match x with
  | .ok (b, s) => ∃ t, y = .ok (b, t) ∧ R s t
  | .error h => y = .error h ∨ L ∧ h = .pending

section Sim

variable {β γ : Type u} {ε' : Type*} {L : Prop} {R R' : σ → τ → Prop} {x : Except (Halt ε) (β × σ)}
  {y : Except (Halt ε) (β × τ)}

theorem Sim.ok {b : β} {s : σ} {t : τ} (h : R s t) : Sim L R (.ok (b, s) : Except (Halt ε) (β × σ)) (.ok (b, t)) :=
  ⟨t, rfl, h⟩

theorem Sim.error (h : Halt ε) : Sim L R (.error h : Except (Halt ε) (β × σ)) (.error h) := .inl rfl

theorem Sim.bind {f : β × σ → Except (Halt ε) (γ × σ)} {g : β × τ → Except (Halt ε) (γ × τ)} (h : Sim L R x y)
    (hfg : ∀ b s t, R s t → Sim L R' (f (b, s)) (g (b, t))) : Sim L R' (x >>= f) (y >>= g) := by
  match x, h with
  | .ok (b, s), ⟨t, hy, hR⟩ =>
    rw [hy]
    exact hfg b s t hR
  | .error h, .inl hy =>
    rw [hy]
    exact .inl rfl
  | .error _, .inr hL => exact .inr hL

theorem Sim.mapError {f : ε → ε'} (h : Sim L R x y) : Sim L R (x.mapError (Halt.map f)) (y.mapError (Halt.map f)) := by
  match x, h with
  | .ok (b, s), ⟨t, hy, hR⟩ =>
    rw [hy]
    exact ⟨t, rfl, hR⟩
  | .error h, .inl hy =>
    rw [hy]
    exact .inl rfl
  | .error _, .inr ⟨hL, rfl⟩ => exact .inr ⟨hL, rfl⟩

theorem Sim.of_ok {b : β} {s : σ} (h : Sim L R x y) (hx : x = .ok (b, s)) : ∃ t, y = .ok (b, t) ∧ R s t := by
  rw [hx] at h
  exact h

theorem Sim.exists_ok {b : β} {t : τ} (h : Sim False R x y) (hy : y = .ok (b, t)) : ∃ s, x = .ok (b, s) ∧ R s t := by
  cases hx : x with
  | error a =>
    rw [hx, hy] at h
    rcases h with h | h
    · cases h
    · exact h.1.elim
  | ok p =>
    obtain ⟨b', s⟩ := p
    obtain ⟨t', hy', hR⟩ := h.of_ok hx
    obtain ⟨rfl, rfl⟩ := Prod.mk.inj (Except.ok.inj (hy.symm.trans hy'))
    exact ⟨s, rfl, hR⟩

theorem Sim.eq_error_iff {a : Halt ε} (h : Sim False R x y) : x = .error a ↔ y = .error a := by
  constructor
  · intro hx
    rw [hx] at h
    exact h.resolve_right fun hL => hL.1
  · intro hy
    cases hx : x with
    | error b =>
      rw [hx, hy] at h
      obtain rfl := Except.error.inj (h.resolve_right fun hL => hL.1)
      rfl
    | ok p =>
      obtain ⟨t, hy', -⟩ := h.of_ok hx
      rw [hy] at hy'
      cases hy'

end Sim

/-! ## The stream -/

/-- The segments that are still to be read, and what comes after them. -/
structure Stream (α : Type u) where
  segs : List (List α)
  ending : Ending
  deriving DecidableEq, Repr

def Stream.flat (s : Stream α) : List α := s.segs.flatten

/-- `read` into `n` bytes: the next segment, or as much of it as there is room for.  No byte means the end. -/
def Stream.read (n : ℕ) (s : Stream α) : Io (List α × Stream α) :=
  match s.segs with
  | seg :: segs => .ok (seg.take n, { s with segs := if seg.length ≤ n then segs else seg.drop n :: segs })
  | [] =>
    match s.ending with
    | .eof => .ok ([], s)
    | .open => .error .pending
    | .failed => .error (.err .other)

theorem Stream.length_read_le {n : ℕ} {s s' : Stream α} {b : List α} (h : s.read n = .ok (b, s')) : b.length ≤ n := by
  unfold Stream.read at h
  split at h
  · obtain ⟨rfl, -⟩ := Prod.mk.inj (Except.ok.inj h)
    exact List.length_take_le _ _
  · split at h
    · obtain ⟨rfl, -⟩ := Prod.mk.inj (Except.ok.inj h)
      exact Nat.zero_le n
    · cases h
    · cases h

/-! ## The buffered reader -/

structure BufReader (α : Type u) where
  buf : List α
  inner : Stream α
  deriving DecidableEq, Repr

def BufReader.new (s : Stream α) : BufReader α := ⟨[], s⟩

/-- `fill_buf`: ask the stream when the buffer is empty. -/
def BufReader.fillBuf (cap : ℕ) (r : BufReader α) : Io (BufReader α) :=
  if r.buf.isEmpty then (r.inner.read cap).map fun p => ⟨p.1, p.2⟩ else .ok r

/-- Split after the first `d`. -/
def splitAfter [DecidableEq α] (d : α) : List α → Option (List α × List α)
  | [] => none
  | a :: as => if a = d then some ([a], as) else (splitAfter d as).map fun p => (a :: p.1, p.2)

/-- `read_until`: everything up to and including the first `d`, or up to the end of the stream.  The first argument
bounds the number of turns of the loop. -/
def BufReader.readUntilAux [DecidableEq α] (cap : ℕ) (d : α) : ℕ → BufReader α → Io (List α × BufReader α)
  | 0, _ => .error .pending
  | n + 1, r => do
    let r ← r.fillBuf cap
    match splitAfter d r.buf with
    | some (line, rest) => .ok (line, ⟨rest, r.inner⟩)
    | none =>
      if r.buf.isEmpty then .ok ([], r)
      else
        let (more, r') ← readUntilAux cap d n ⟨[], r.inner⟩
        .ok (r.buf ++ more, r')

def BufReader.readUntil [DecidableEq α] (cap : ℕ) (d : α) (r : BufReader α) : Io (List α × BufReader α) :=
  r.readUntilAux cap d (r.inner.flat.length + 2)

/-- `read_exact` into `n` bytes.  A read at least as large as the buffer goes past an empty buffer. -/
def BufReader.readExactAux (cap : ℕ) : ℕ → ℕ → BufReader α → Io (List α × BufReader α)
  | _, 0, r => .ok ([], r)
  | 0, _ + 1, _ => .error .pending
  | turns + 1, n + 1, r =>
    if r.buf.isEmpty ∧ cap ≤ n + 1 then do
      let (b, s) ← r.inner.read (n + 1)
      if b.isEmpty then .error (.err .unexpectedEof)
      else
        let (more, r') ← readExactAux cap turns (n + 1 - b.length) ⟨[], s⟩
        .ok (b ++ more, r')
    else do
      let r ← r.fillBuf cap
      if r.buf.isEmpty then .error (.err .unexpectedEof)
      else
        let (more, r') ← readExactAux cap turns (n + 1 - (r.buf.take (n + 1)).length) ⟨r.buf.drop (n + 1), r.inner⟩
        .ok (r.buf.take (n + 1) ++ more, r')

def BufReader.readExact (cap n : ℕ) (r : BufReader α) : Io (List α × BufReader α) := r.readExactAux cap n n

/-! ## The plain reader -/

namespace Plain

def atEnd {β : Type u} (atEof : Io β) : Ending → Io β
  | .eof => atEof
  | .open => .error .pending
  | .failed => .error (.err .other)

def readUntil [DecidableEq α] (d : α) (e : Ending) (bs : List α) : Io (List α × List α) :=
  match splitAfter d bs with
  | some p => .ok p
  | none => atEnd (.ok (bs, [])) e

def readExact (e : Ending) (n : ℕ) (bs : List α) : Io (List α × List α) :=
  if n ≤ bs.length then .ok (bs.take n, bs.drop n) else atEnd (.error (.err .unexpectedEof)) e

end Plain

/-! ## The buffered reader does what the plain one does -/

/-- The reader `r` is at the bytes `bs`, which end in `e`.  Under `T` the bytes arrive one by one and none of them is
buffered. -/
structure Reads (T : Prop) (e : Ending) (r : BufReader α) (bs : List α) : Prop where
  bytes : r.buf ++ r.inner.flat = bs
  ending : r.inner.ending = e
  wf : ∀ seg ∈ r.inner.segs, seg ≠ []
  tight : T → r.buf = [] ∧ ∀ seg ∈ r.inner.segs, seg.length = 1

theorem reads_new {s : Stream α} (h : ∀ seg ∈ s.segs, seg ≠ []) : Reads False s.ending (.new s) s.flat :=
  ⟨rfl, rfl, h, False.elim⟩

/-- The stream that delivers the bytes one by one. -/
def Stream.singles (bs : List α) (e : Ending) : Stream α := ⟨bs.map fun b => [b], e⟩

theorem flat_singles (bs : List α) (e : Ending) : (Stream.singles bs e).flat = bs := by
  simp only [Stream.flat, Stream.singles]
  induction bs with
  | nil => rfl
  | cons b bs ih => simp [ih]

theorem reads_singles (bs : List α) (e : Ending) : Reads True e (.new (.singles bs e)) bs := by
  refine ⟨flat_singles bs e, rfl, ?_, fun _ => ⟨rfl, ?_⟩⟩ <;>
    simp [BufReader.new, Stream.singles]

section Splits

variable [DecidableEq α] {d : α} {bs l rest : List α}

theorem splitAfter_eq_some : splitAfter d bs = some (l, rest) ↔ ∃ l', d ∉ l' ∧ l = l' ++ [d] ∧ bs = l' ++ d :: rest := by
  induction bs generalizing l with
  | nil => simp [splitAfter]
  | cons a bs ih =>
    simp only [splitAfter]
    split_ifs with h
    · subst h
      simp only [Option.some.injEq, Prod.mk.injEq]
      constructor
      · rintro ⟨rfl, rfl⟩
        exact ⟨[], by simp, rfl, rfl⟩
      · rintro ⟨l', hl', rfl, h⟩
        cases l' with
        | nil => simpa using h
        | cons b l' =>
          obtain ⟨rfl, -⟩ := List.cons.inj h
          simp at hl'
    · simp only [Option.map_eq_some_iff, Prod.mk.injEq, Prod.exists]
      constructor
      · rintro ⟨m, rest, hm, rfl, rfl⟩
        obtain ⟨l', hl', rfl, rfl⟩ := ih.1 hm
        exact ⟨a :: l', by simp [hl', Ne.symm h], rfl, rfl⟩
      · rintro ⟨l', hl', rfl, hbs⟩
        cases l' with
        | nil => exact absurd (List.cons.inj hbs).1 h
        | cons b l' =>
          obtain ⟨rfl, rfl⟩ := List.cons.inj hbs
          exact ⟨_, _, ih.2 ⟨l', fun hd => hl' (by simp [hd]), rfl, rfl⟩, rfl, rfl⟩

theorem splitAfter_eq_none : splitAfter d bs = none ↔ d ∉ bs := by
  induction bs with
  | nil => simp [splitAfter]
  | cons a bs ih =>
    simp only [splitAfter]
    split_ifs with h
    · simp [h]
    · simp [ih, Ne.symm h]

theorem splitAfter_append_of_some (h : splitAfter d bs = some (l, rest)) (more : List α) :
    splitAfter d (bs ++ more) = some (l, rest ++ more) := by
  rw [splitAfter_eq_some] at h ⊢
  obtain ⟨l', hl', rfl, rfl⟩ := h
  exact ⟨l', hl', rfl, by simp⟩

theorem splitAfter_append_of_none (h : splitAfter d bs = none) (more : List α) :
    splitAfter d (bs ++ more) = (splitAfter d more).map fun p => (bs ++ p.1, p.2) := by
  rw [splitAfter_eq_none] at h
  induction bs with
  | nil => simp
  | cons a bs ih =>
    simp only [List.mem_cons, not_or] at h
    rw [List.cons_append, splitAfter, if_neg (Ne.symm h.1), ih h.2, Option.map_map]
    rfl

end Splits

/-- What `read_until` returns: the bytes up to the first `d`, or all bytes before the end of the stream. -/
theorem Plain.readUntil_eq_ok [DecidableEq α] {d : α} {e : Ending} {bs l rest : List α} :
    Plain.readUntil d e bs = .ok (l, rest) ↔
      (∃ l', d ∉ l' ∧ l = l' ++ [d] ∧ bs = l' ++ d :: rest) ∨ d ∉ bs ∧ e = .eof ∧ l = bs ∧ rest = [] := by
  unfold Plain.readUntil
  cases hsplit : splitAfter d bs with
  | some p =>
    have hmem : d ∈ bs := by
      by_contra hnot
      rw [splitAfter_eq_none.2 hnot] at hsplit
      cases hsplit
    rw [← splitAfter_eq_some, hsplit]
    simp [hmem]
  | none =>
    have hnot := splitAfter_eq_none.1 hsplit
    rw [← splitAfter_eq_some, hsplit]
    cases e <;> simp [Plain.atEnd, hnot, eq_comm]

theorem Plain.readUntil_append_of_none [DecidableEq α] {d : α} {e : Ending} {bs : List α} (h : splitAfter d bs = none)
    (more : List α) :
    Plain.readUntil d e (bs ++ more) = Plain.readUntil d e more >>= fun p => .ok (bs ++ p.1, p.2) := by
  unfold Plain.readUntil
  rw [splitAfter_append_of_none h]
  cases splitAfter d more with
  | some p => rfl
  | none => cases e <;> rfl

/-- The buffer of `r` holds the first of the bytes `bs`. -/
structure Filled (T : Prop) (e : Ending) (r : BufReader α) (bs : List α) : Prop where
  bytes : r.buf ++ r.inner.flat = bs
  ending : r.inner.ending = e
  wf : ∀ seg ∈ r.inner.segs, seg ≠ []
  nonempty : r.buf ≠ []
  tight : T → r.buf.length = 1 ∧ ∀ seg ∈ r.inner.segs, seg.length = 1

section Reads

variable {T : Prop} {e : Ending} {r : BufReader α} {s : Stream α} {bs : List α} {cap n : ℕ}

theorem Filled.reads {rest : List α} (h : Filled T e r bs) (hrest : T → rest = []) :
    Reads T e ⟨rest, r.inner⟩ (rest ++ r.inner.flat) :=
  ⟨rfl, h.ending, h.wf, fun hT => ⟨hrest hT, (h.tight hT).2⟩⟩

theorem read_spec (hn : 0 < n) (h : Reads T e ⟨[], s⟩ bs) :
    (bs = [] ∧ s.read n = Plain.atEnd (.ok ([], s)) e) ∨
    ∃ b s', s.read n = .ok (b, s') ∧ b.length ≤ n ∧ Filled T e ⟨b, s'⟩ bs ∧ s'.flat.length < bs.length := by
  obtain ⟨segs, e'⟩ := s
  obtain ⟨hbytes, hend, hwf, htight⟩ := h
  obtain rfl : e' = e := hend
  cases segs with
  | nil =>
    left
    refine ⟨hbytes.symm, ?_⟩
    cases e' <;> rfl
  | cons seg segs =>
    right
    simp only [List.mem_cons, forall_eq_or_imp, List.nil_append, true_and] at hwf htight hbytes
    have hseg : 0 < seg.length := List.length_pos_iff.2 hwf.1
    have htake : seg.take n ≠ [] := by
      simp only [Ne, List.take_eq_nil_iff, not_or]
      exact ⟨by omega, hwf.1⟩
    by_cases hlen : seg.length ≤ n
    · refine ⟨seg.take n, ⟨segs, e'⟩, by simp [Stream.read, hlen], List.length_take_le _ _, ⟨?_, rfl, hwf.2, htake, fun hT => ?_⟩, ?_⟩
      · simpa [List.take_of_length_le hlen, Stream.flat] using hbytes
      · obtain ⟨h1, h2⟩ := htight hT
        exact ⟨by simp only [List.length_take]; omega, h2⟩
      · simp only [Stream.flat, List.flatten_cons] at hbytes ⊢
        simp only [← hbytes, List.length_append]
        omega
    · refine ⟨seg.take n, ⟨seg.drop n :: segs, e'⟩, by simp [Stream.read, hlen], List.length_take_le _ _, ⟨?_, rfl, ?_, htake, ?_⟩, ?_⟩
      · simpa [Stream.flat, ← List.append_assoc] using hbytes
      · simp only [List.mem_cons, forall_eq_or_imp]
        exact ⟨by simp; omega, hwf.2⟩
      · intro hT
        have := (htight hT).1
        omega
      · simp only [Stream.flat, List.flatten_cons] at hbytes ⊢
        simp only [← hbytes, List.length_append, List.length_drop]
        omega

theorem fillBuf_spec (hcap : 0 < cap) (h : Reads T e r bs) :
    (bs = [] ∧ r.fillBuf cap = Plain.atEnd (.ok r) e) ∨
    ∃ r', r.fillBuf cap = .ok r' ∧ Filled T e r' bs ∧
      r'.inner.flat.length + (if r.buf.isEmpty then 1 else 0) ≤ r.inner.flat.length := by
  obtain ⟨buf, s⟩ := r
  cases buf with
  | nil =>
    obtain ⟨rfl, hread⟩ | ⟨b, s', hread, -, hfill, hlt⟩ := read_spec hcap h
    · left
      refine ⟨rfl, ?_⟩
      simp only [BufReader.fillBuf, hread, List.isEmpty_nil, if_true]
      cases e <;> rfl
    · right
      refine ⟨⟨b, s'⟩, by simp [BufReader.fillBuf, hread, Except.map], hfill, ?_⟩
      have := h.bytes
      simp only [List.nil_append] at this
      simp only [this, List.isEmpty_nil, if_true]
      omega
  | cons b buf =>
    right
    refine ⟨⟨b :: buf, s⟩, by simp [BufReader.fillBuf], ⟨h.bytes, h.ending, h.wf, by simp, ?_⟩, by simp⟩
    intro hT
    exact absurd (h.tight hT).1 (by simp)

end Reads

theorem readUntilAux_sim [DecidableEq α] {T : Prop} {e : Ending} {r : BufReader α} {bs : List α} {cap n : ℕ} {d : α}
    (hcap : 0 < cap) (h : Reads T e r bs) (hn : r.inner.flat.length + (if r.buf.isEmpty then 1 else 2) ≤ n) :
    Sim False (Reads T e) (r.readUntilAux cap d n) (Plain.readUntil d e bs) := by
  induction n generalizing r bs with
  | zero => split_ifs at hn <;> omega
  | succ n ih =>
    rw [BufReader.readUntilAux]
    obtain ⟨rfl, hfill⟩ | ⟨r', hfill, hr', hlt⟩ := fillBuf_spec hcap h
    · -- the stream is used up
      have hbuf : r.buf = [] := (List.append_eq_nil_iff.1 h.bytes).1
      rw [hfill]
      cases e with
      | eof =>
        simp only [Plain.atEnd, Plain.readUntil, bind, Except.bind, hbuf, splitAfter, List.isEmpty_nil, if_true]
        exact Sim.ok h
      | «open» => exact Sim.error _
      | failed => exact Sim.error _
    · obtain ⟨buf, s⟩ := r'
      have hinner : Reads T e ⟨[], s⟩ s.flat := hr'.reads fun _ => rfl
      have hbs : buf ++ s.flat = bs := hr'.bytes
      have hlt : s.flat.length + 1 ≤ n := by
        simp only at hlt
        split_ifs at hlt hn <;> omega
      rw [hfill, ← hbs]
      cases hsplit : splitAfter d buf with
      | some p =>
        -- the delimiter is in the buffer
        obtain ⟨line, rest⟩ := p
        simp only [bind, Except.bind, Plain.readUntil, hsplit, splitAfter_append_of_some hsplit]
        refine Sim.ok (hr'.reads fun hT => ?_)
        obtain ⟨l', -, -, hl'⟩ := splitAfter_eq_some.1 hsplit
        have hlen := (hr'.tight hT).1
        simp only [hl', List.length_append, List.length_cons] at hlen
        exact List.length_eq_zero_iff.1 (by omega)
      | none =>
        -- it is not: the loop goes on behind the buffer
        rw [Plain.readUntil_append_of_none hsplit]
        have hne : buf.isEmpty = false := by simpa using hr'.nonempty
        simp only [bind, Except.bind, hsplit, hne, Bool.false_eq_true, if_false]
        exact (ih hinner (by simpa using hlt)).bind fun _ _ _ h => Sim.ok h

/-- **`read_until` does not see the segments.** -/
theorem readUntil_sim [DecidableEq α] {T : Prop} {e : Ending} {r : BufReader α} {bs : List α} {cap : ℕ} {d : α}
    (hcap : 0 < cap) (h : Reads T e r bs) : Sim False (Reads T e) (r.readUntil cap d) (Plain.readUntil d e bs) := by
  apply readUntilAux_sim hcap h
  split_ifs <;> omega

theorem Plain.readExact_eq_ok {e : Ending} {n : ℕ} {bs b rest : List α} :
    Plain.readExact e n bs = .ok (b, rest) ↔ n ≤ bs.length ∧ b = bs.take n ∧ rest = bs.drop n := by
  unfold Plain.readExact
  split_ifs with hn
  · simp [hn, eq_comm]
  · cases e <;> simp [Plain.atEnd, hn]

theorem Plain.readExact_append {e : Ending} {n : ℕ} {bs more : List α} (h : bs.length ≤ n) :
    Plain.readExact e n (bs ++ more) = Plain.readExact e (n - bs.length) more >>= fun p => .ok (bs ++ p.1, p.2) := by
  unfold Plain.readExact
  by_cases hn : n ≤ (bs ++ more).length
  · have hmore : n - bs.length ≤ more.length := by simp only [List.length_append] at hn; omega
    rw [if_pos hn, if_pos hmore, List.take_append, List.drop_append, List.take_of_length_le h, List.drop_of_length_le h]
    rfl
  · have hmore : ¬ n - bs.length ≤ more.length := by simp only [List.length_append] at hn; omega
    rw [if_neg hn, if_neg hmore]
    cases e <;> rfl

theorem readExactAux_sim {T : Prop} {e : Ending} {r : BufReader α} {bs : List α} {cap turns n : ℕ} (hcap : 0 < cap)
    (h : Reads T e r bs) (hn : n ≤ turns) :
    Sim False (Reads T e) (r.readExactAux cap turns n) (Plain.readExact e n bs) := by
  induction turns generalizing n r bs with
  | zero =>
    obtain rfl : n = 0 := by omega
    simpa [BufReader.readExactAux, Plain.readExact] using Sim.ok h
  | succ turns ih =>
    cases n with
    | zero => simpa [BufReader.readExactAux, Plain.readExact] using Sim.ok h
    | succ n =>
      rw [BufReader.readExactAux]
      -- what both ways of reading leave is the rest of the bytes
      have hmore : ∀ (b : List α) (r' : BufReader α) (bs' : List α), b ≠ [] → b.length ≤ n + 1 → Reads T e r' bs' →
          bs = b ++ bs' → Sim False (Reads T e) (r'.readExactAux cap turns (n + 1 - b.length) >>= fun p => .ok (b ++ p.1, p.2))
            (Plain.readExact e (n + 1) bs) := by
        intro b r' bs' hb hlen hr' hbs
        rw [hbs, Plain.readExact_append hlen]
        have := List.length_pos_iff.2 hb
        exact (ih hr' (by omega)).bind fun _ _ _ h => Sim.ok h
      split_ifs with hdirect
      · -- past the buffer
        obtain ⟨buf, s⟩ := r
        obtain rfl : buf = [] := by simpa using hdirect.1
        obtain ⟨rfl, hread⟩ | ⟨b, s', hread, hlen, hfill, -⟩ := read_spec (n := n + 1) (by omega) h
        · rw [hread]
          cases e <;> exact Sim.error _
        · have hne : b.isEmpty = false := by simpa using hfill.nonempty
          rw [hread]
          simp only [bind, Except.bind, hne, Bool.false_eq_true, if_false]
          exact hmore b ⟨[], s'⟩ s'.flat hfill.nonempty hlen (hfill.reads fun _ => rfl) hfill.bytes.symm
      · -- through the buffer
        obtain ⟨rfl, hread⟩ | ⟨⟨buf, s⟩, hread, hfill, -⟩ := fillBuf_spec hcap h
        · have hbuf : r.buf = [] := (List.append_eq_nil_iff.1 h.bytes).1
          rw [hread]
          cases e with
          | eof =>
            simp only [Plain.atEnd, bind, Except.bind, hbuf, List.isEmpty_nil, if_true]
            exact Sim.error _
          | «open» => exact Sim.error _
          | failed => exact Sim.error _
        · have hne : buf.isEmpty = false := by simpa using hfill.nonempty
          rw [hread]
          simp only [bind, Except.bind, hne, Bool.false_eq_true, if_false]
          refine hmore (buf.take (n + 1)) ⟨buf.drop (n + 1), s⟩ (buf.drop (n + 1) ++ s.flat) ?_ ?_ ?_ ?_
          · simpa using hfill.nonempty
          · exact List.length_take_le _ _
          · refine hfill.reads fun hT => List.drop_of_length_le ?_
            have := (hfill.tight hT).1
            simp only at this
            omega
          · rw [← List.append_assoc, List.take_append_drop]
            exact hfill.bytes.symm

/-- **`read_exact` does not see the segments.** -/
theorem readExact_sim {T : Prop} {e : Ending} {r : BufReader α} {bs : List α} {cap n : ℕ} (hcap : 0 < cap)
    (h : Reads T e r bs) : Sim False (Reads T e) (r.readExact cap n) (Plain.readExact e n bs) :=
  readExactAux_sim hcap h (Nat.le_refl n)

/-! ## More bytes may arrive -/

/-- What is read before the last byte does not depend on what follows. -/
theorem Plain.readUntil_more [DecidableEq α] (d : α) (e : Ending) (bs more : List α) :
    Sim True (fun s t => t = s ++ more) (Plain.readUntil d .open bs) (Plain.readUntil d e (bs ++ more)) := by
  unfold Plain.readUntil
  cases h : splitAfter d bs with
  | some p =>
    rw [splitAfter_append_of_some h]
    exact Sim.ok rfl
  | none => exact .inr ⟨trivial, rfl⟩

theorem Plain.readExact_more (e : Ending) (n : ℕ) (bs more : List α) :
    Sim True (fun s t => t = s ++ more) (Plain.readExact .open n bs) (Plain.readExact e n (bs ++ more)) := by
  unfold Plain.readExact
  split_ifs with h h'
  · rw [List.take_append_of_le_length h, List.drop_append_of_le_length h]
    exact Sim.ok rfl
  · exact absurd (Nat.le_trans h (by simp)) h'
  all_goals exact .inr ⟨trivial, rfl⟩

/-! ## Reading without a buffered reader -/

/-- `read` after `read` into what is left of `n` bytes, up to the end of the stream.  The first argument bounds the number
of turns of the loop. -/
def Stream.fillAux : ℕ → ℕ → Stream α → Io (List α × Stream α)
  | _, 0, s => .ok ([], s)
  | 0, _ + 1, _ => .error .pending
  | turns + 1, n + 1, s => do
    let (b, s) ← s.read (n + 1)
    if b.isEmpty then .ok ([], s)
    else
      let (more, s) ← fillAux turns (n + 1 - b.length) s
      .ok (b ++ more, s)

def Stream.fill (n : ℕ) (s : Stream α) : Io (List α × Stream α) := s.fillAux n n

/-- `read_exact` on the stream itself. -/
def Stream.readExact (n : ℕ) (s : Stream α) : Io (List α × Stream α) := do
  let (b, s) ← s.fill n
  if b.length < n then .error (.err .unexpectedEof) else .ok (b, s)

/-- The bytes that are there, if the stream ends with them, or as many as are asked for. -/
def Plain.fill (e : Ending) (n : ℕ) (bs : List α) : Io (List α × List α) :=
  if n ≤ bs.length then .ok (bs.take n, bs.drop n) else Plain.atEnd (.ok (bs, [])) e

theorem Plain.fill_append {e : Ending} {n : ℕ} {bs more : List α} (h : bs.length ≤ n) :
    Plain.fill e n (bs ++ more) = Plain.fill e (n - bs.length) more >>= fun p => .ok (bs ++ p.1, p.2) := by
  unfold Plain.fill
  by_cases hn : n ≤ (bs ++ more).length
  · have hmore : n - bs.length ≤ more.length := by simp only [List.length_append] at hn; omega
    rw [if_pos hn, if_pos hmore, List.take_append, List.drop_append, List.take_of_length_le h, List.drop_of_length_le h]
    rfl
  · have hmore : ¬ n - bs.length ≤ more.length := by simp only [List.length_append] at hn; omega
    rw [if_neg hn, if_neg hmore]
    cases e <;> rfl

/-- The stream is at the bytes `bs`, which end in `e`. -/
structure At (e : Ending) (s : Stream α) (bs : List α) : Prop where
  bytes : s.flat = bs
  ending : s.ending = e
  wf : ∀ seg ∈ s.segs, seg ≠ []

theorem fillAux_sim {e : Ending} {s : Stream α} {bs : List α} {turns n : ℕ} (h : At e s bs) (hn : n ≤ turns) :
    Sim False (At e) (s.fillAux turns n) (Plain.fill e n bs) := by
  induction turns generalizing n s bs with
  | zero =>
    obtain rfl : n = 0 := by omega
    simpa [Stream.fillAux, Plain.fill] using Sim.ok h
  | succ turns ih =>
    cases n with
    | zero => simpa [Stream.fillAux, Plain.fill] using Sim.ok h
    | succ n =>
      have hreads : Reads False e ⟨[], s⟩ bs := ⟨h.bytes, h.ending, h.wf, False.elim⟩
      rw [Stream.fillAux]
      obtain ⟨rfl, hread⟩ | ⟨b, s', hread, hlen, hfill, -⟩ := read_spec (Nat.succ_pos n) hreads
      · rw [hread]
        cases e with
        | eof => exact Sim.ok h
        | «open» => exact Sim.error _
        | failed => exact Sim.error _
      · have hne : b.isEmpty = false := by simpa using hfill.nonempty
        have hpos : 0 < b.length := List.length_pos_iff.2 hfill.nonempty
        have hbytes : b ++ s'.flat = bs := hfill.bytes
        rw [hread, ← hbytes, Plain.fill_append hlen]
        simp only [bind, Except.bind, hne, Bool.false_eq_true, if_false]
        exact (ih ⟨rfl, hfill.ending, hfill.wf⟩ (by omega)).bind fun _ _ _ h => Sim.ok h

/-- **`read_exact` does not see the segments**, without a buffer either. -/
theorem Stream.readExact_sim {e : Ending} {s : Stream α} {bs : List α} (n : ℕ) (h : At e s bs) :
    Sim False (At e) (s.readExact n) (Plain.readExact e n bs) := by
  have hplain : Plain.readExact e n bs =
      Plain.fill e n bs >>= fun p => if p.1.length < n then .error (.err .unexpectedEof) else .ok p := by
    unfold Plain.readExact Plain.fill
    by_cases hn : n ≤ bs.length
    · have hlen : ¬ (bs.take n).length < n := by rw [List.length_take]; omega
      rw [if_pos hn, if_pos hn]
      exact (if_neg hlen).symm
    · rw [if_neg hn, if_neg hn]
      cases e with
      | eof => exact (if_pos (Nat.not_le.1 hn)).symm
      | «open» | failed => rfl
  rw [hplain]
  refine (fillAux_sim h (Nat.le_refl n)).bind fun b s bs hat => ?_
  simp only
  split_ifs
  · exact Sim.error _
  · exact Sim.ok hat

/-! ## The read that brings a byte -/

/-- How many bytes are read before the `read` into `n` bytes that brings the `k`-th byte. -/
def readStart (n k : ℕ) : List (List α) → ℕ
  | [] => 0
  | seg :: segs => if k ≤ seg.length then n * ((k - 1) / n) else seg.length + readStart n (k - seg.length) segs

/-- How many bytes are read after it. -/
def readEnd (n k : ℕ) : List (List α) → ℕ
  | [] => 0
  | seg :: segs =>
    if k ≤ seg.length then min seg.length (n * ((k - 1) / n) + n) else seg.length + readEnd n (k - seg.length) segs

section Reads

variable {n k : ℕ} {s s' : Stream α} {b : List α}

/-- The bytes that one `read` takes off the stream. -/
structure Taken (n : ℕ) (s : Stream α) (b : List α) (s' : Stream α) : Prop where
  nonempty : b ≠ []
  bytes : s.flat = b ++ s'.flat
  ending : s'.ending = s.ending
  wf : ∀ seg ∈ s'.segs, seg ≠ []
  here : ∀ k, 0 < k → k ≤ b.length → readStart n k s.segs = 0 ∧ readEnd n k s.segs = b.length
  later : ∀ k, b.length < k → readStart n k s.segs = b.length + readStart n (k - b.length) s'.segs ∧
    readEnd n k s.segs = b.length + readEnd n (k - b.length) s'.segs

theorem read_taken (hn : 0 < n) (hwf : ∀ seg ∈ s.segs, seg ≠ []) :
    (s.segs = [] ∧ s.read n = Plain.atEnd (.ok ([], s)) s.ending) ∨ ∃ b s', s.read n = .ok (b, s') ∧ Taken n s b s' := by
  obtain ⟨segs, e⟩ := s
  cases segs with
  | nil =>
    left
    refine ⟨rfl, ?_⟩
    cases e <;> rfl
  | cons seg segs =>
    right
    simp only [List.mem_cons, forall_eq_or_imp] at hwf
    have hpos := List.length_pos_iff.2 hwf.1
    by_cases hlen : seg.length ≤ n
    -- the whole segment
    · refine ⟨seg, ⟨segs, e⟩, by simp [Stream.read, hlen, List.take_of_length_le hlen], hwf.1, rfl, rfl, hwf.2, ?_, ?_⟩
      · intro k hk hle
        have hzero : (k - 1) / n = 0 := Nat.div_eq_of_lt (by omega)
        simp only [readStart, readEnd, if_pos hle, hzero, Nat.mul_zero, Nat.zero_add, Nat.min_eq_left hlen, and_self]
      · intro k hlt
        simp only [readStart, readEnd, if_neg (Nat.not_le.2 hlt), and_self]
    -- as much of it as there is room for
    · have hb : (seg.take n).length = n := by rw [List.length_take]; omega
      refine ⟨seg.take n, ⟨seg.drop n :: segs, e⟩, by simp [Stream.read, hlen], ?_, ?_, rfl, ?_, ?_, ?_⟩
      · exact List.ne_nil_of_length_pos (by omega)
      · simp [Stream.flat, ← List.append_assoc]
      · simp only [List.mem_cons, forall_eq_or_imp]
        exact ⟨List.ne_nil_of_length_pos (by rw [List.length_drop]; omega), hwf.2⟩
      · intro k hk hle
        rw [hb] at hle ⊢
        have hzero : (k - 1) / n = 0 := Nat.div_eq_of_lt (by omega)
        simp only [readStart, readEnd, if_pos (by omega : k ≤ seg.length), hzero, Nat.mul_zero, Nat.zero_add, true_and]
        omega
      · intro k hlt
        rw [hb] at hlt ⊢
        have hdiv : (k - 1) / n = (k - n - 1) / n + 1 := by
          rw [Nat.div_eq_sub_div hn (by omega)]
          congr 2
          omega
        simp only [readStart, readEnd, List.length_drop]
        by_cases hle : k ≤ seg.length
        · rw [if_pos hle, if_pos hle, if_pos (by omega), if_pos (by omega), hdiv, Nat.mul_add, Nat.mul_one]
          omega
        · have hsub : k - n - (seg.length - n) = k - seg.length := by omega
          rw [if_neg hle, if_neg hle, if_neg (by omega), if_neg (by omega), hsub]
          omega

/-- The read that brings a byte brings no more than there is room for. -/
theorem readEnd_lt (hn : 0 < n) (hk : 0 < k) (segs : List (List α)) : readEnd n k segs < k + n := by
  induction segs generalizing k with
  | nil =>
    simp only [readEnd]
    omega
  | cons seg segs ih =>
    rw [readEnd]
    split_ifs with hle
    · have := Nat.div_mul_le_self (k - 1) n
      rw [Nat.mul_comm] at this
      omega
    · have := ih (k := k - seg.length) (by omega)
      omega

/-- It starts before the byte, -/
theorem readStart_lt (hk : 0 < k) (segs : List (List α)) : readStart n k segs < k := by
  induction segs generalizing k with
  | nil => exact hk
  | cons seg segs ih =>
    rw [readStart]
    split_ifs with hle
    · have := Nat.div_mul_le_self (k - 1) n
      rw [Nat.mul_comm] at this
      omega
    · have := ih (k := k - seg.length) (by omega)
      omega

/-- and no further before it than there is room. -/
theorem le_readStart_add (hn : 0 < n) {segs : List (List α)} (hk : k ≤ segs.flatten.length) :
    k ≤ readStart n k segs + n := by
  induction segs generalizing k with
  | nil =>
    rw [List.flatten_nil, List.length_nil] at hk
    omega
  | cons seg segs ih =>
    rw [readStart]
    split_ifs with hle
    · have : k - 1 < (k - 1) / n * n + n := Nat.lt_div_mul_add hn
      rw [Nat.mul_comm] at this
      omega
    · rw [List.flatten_cons, List.length_append] at hk
      have := ih (k := k - seg.length) (by omega)
      omega

end Reads

end ServiceProxy.Lib
