import ServiceProxy.Upstream.WriteResponse

/-!
# Responses that announce too much

`read_response` allocates the body before it has read a byte of it, and `vec![0u8; n]` panics above `isize::MAX`.

* `LinesOf` — the lines that `read_line` returns, one after the other;
* `HeadOf` — a head that `read_response` accepts, by its lines: a status line, field lines and a line that ends them;
* `decode_of_headOf`, `headOf_of_decode` — what it makes of such a head, and that it returns on no other;
* `readResponse_error`, `readResponse_overlong` — it panics on a head whose last `Content-Length` is a `usize` that cannot
  be allocated, and on no other.
-/

namespace ServiceProxy.Upstream

open ServiceProxy.Lib

/-! ## Lines -/

/-- The lines that `read_line` returns, and the bytes behind them. -/
inductive LinesOf (e : Ending) : List UInt8 → List (List Char) → List UInt8 → Prop
  | nil (bs : List UInt8) : LinesOf e bs [] bs
  | cons {bs rest rest' : List UInt8} {line : List Char} {lines : List (List Char)} :
      (plain e).readLine bs = .ok (line, rest) → LinesOf e rest lines rest' → LinesOf e bs (line :: lines) rest'

/-- The name and the value of a field line. -/
def fieldOf (line : List Char) : Option (List Char × List Char) :=
  (splitOnce ':' (trimEndMatches isCrOrLf line)).map fun p => (trim p.1, trim p.2)

/-- A line that ends the header loop. -/
def IsBlank (line : List Char) : Prop := trimEndMatches isCrOrLf line = []

/-- The bytes start with a status line, the field lines `ps` and a line that ends them. -/
def HeadOf (e : Ending) (bs : List UInt8) (code : ℕ) (ps : List (List Char × List Char)) (rest : List UInt8) : Prop :=
  ∃ status lines blank, LinesOf e bs (status :: (lines ++ [blank])) rest ∧ parseStatusLine status = .ok code ∧
    lines.mapM fieldOf = some ps ∧ IsBlank blank

/-- **The response announces too much**: the last `Content-Length` of its head is a `usize` that cannot be allocated. -/
def Overlong (e : Ending) (bs : List UInt8) : Prop :=
  ∃ code ps rest n, HeadOf e bs code ps rest ∧ ps.foldl lengthAfter none = some n ∧ 2 ^ 63 ≤ n

section Panic

variable {e : Ending} {bs rest : List UInt8} {line : List Char} {lines : List (List Char)} {turns : ℕ} {m : HeaderMap}
  {contentLength : Option ℕ} {ps : List (List Char × List Char)} {code : ℕ}

theorem readLine_error {a : Halt IoError} (h : (plain e).readLine bs = .error a) : a.Regular e := by
  simp only [plain, lineOf] at h
  rcases bind_eq_error.1 h with h | ⟨p, -, h⟩
  · unfold Plain.readUntil at h
    split at h
    · cases h
    · cases e with
      | eof => cases h
      | «open» =>
        obtain rfl := Except.error.inj h
        rfl
      | failed =>
        obtain rfl := Except.error.inj h
        trivial
  · split at h
    · cases h
    · obtain rfl := Except.error.inj h
      trivial

theorem length_lt_of_readLine (h : (plain e).readLine bs = .ok (line, rest)) (hline : (fieldOf line).isSome) :
    rest.length < bs.length := by
  obtain ⟨l, hread, hdecode⟩ := readLine_eq_ok.1 h
  obtain ⟨l', -, -, rfl⟩ | ⟨-, -, rfl, rfl⟩ := Plain.readUntil_eq_ok.1 hread
  · rw [List.length_append, List.length_cons]
    omega
  · apply List.length_pos_iff.2
    rintro rfl
    obtain rfl : [] = line := Option.some.inj hdecode
    cases hline

theorem length_le_of_readLine (h : (plain e).readLine bs = .ok (line, rest)) : rest.length ≤ bs.length := by
  obtain ⟨l, hread, -⟩ := readLine_eq_ok.1 h
  obtain ⟨l', -, -, rfl⟩ | ⟨-, -, rfl, rfl⟩ := Plain.readUntil_eq_ok.1 hread
  · rw [List.length_append, List.length_cons]
    omega
  · exact Nat.zero_le _

theorem linesOf_cons : LinesOf e bs (line :: lines) rest ↔
    ∃ bs', (plain e).readLine bs = .ok (line, bs') ∧ LinesOf e bs' lines rest := by
  constructor
  · intro h
    cases h with
    | cons hread hlines => exact ⟨_, hread, hlines⟩
  · rintro ⟨bs', hread, hlines⟩
    exact .cons hread hlines

theorem linesOf_nil : LinesOf e bs [] rest ↔ bs = rest := by
  constructor
  · intro h
    cases h
    rfl
  · rintro rfl
    exact .nil bs

theorem mapM_fieldOf_cons :
    (line :: lines).mapM fieldOf = some ps ↔
      ∃ q qs, fieldOf line = some q ∧ lines.mapM fieldOf = some qs ∧ q :: qs = ps := by
  rw [List.mapM_cons]
  constructor
  · intro h
    obtain ⟨q, hq, h⟩ := Option.bind_eq_some_iff.1 h
    obtain ⟨qs, hqs, h⟩ := Option.bind_eq_some_iff.1 h
    exact ⟨q, qs, hq, hqs, Option.some.inj h⟩
  · rintro ⟨q, qs, hq, hqs, rfl⟩
    rw [hq, hqs]
    rfl

theorem length_le_of_linesOf {more : List (List Char)} (h : LinesOf e bs (lines ++ more) rest)
    (hps : lines.mapM fieldOf = some ps) : lines.length ≤ bs.length := by
  induction lines generalizing bs ps with
  | nil => exact Nat.zero_le _
  | cons line lines ih =>
    obtain ⟨bs', hread, h⟩ := linesOf_cons.1 h
    obtain ⟨q, qs, hq, hqs, -⟩ := mapM_fieldOf_cons.1 hps
    have hlt := length_lt_of_readLine hread (by rw [hq]; rfl)
    have hle := ih h hqs
    rw [List.length_cons]
    omega

theorem readHeaders_succ {p : (HeaderMap × Option ℕ) × List UInt8} :
    readHeaders (plain e) (turns + 1) m contentLength bs = .ok p ↔
      ∃ line bs', (plain e).readLine bs = .ok (line, bs') ∧
        (IsBlank line ∧ p = ((m, contentLength), bs') ∨
          ∃ q, fieldOf line = some q ∧
            readHeaders (plain e) turns (m.push q.1 q.2) (lengthAfter contentLength q) bs' = .ok p) := by
  rw [readHeaders, bind_eq_ok]
  constructor
  · rintro ⟨⟨line, bs'⟩, hread, h⟩
    refine ⟨line, bs', mapError_eq_ok.1 hread, ?_⟩
    simp only at h
    split_ifs at h with hempty
    · exact .inl ⟨List.isEmpty_iff.1 hempty, (Except.ok.inj h).symm⟩
    · split at h
      · cases h
      · rename_i name value hsplit
        exact .inr ⟨(trim name, trim value), by rw [fieldOf, hsplit]; rfl, h⟩
  · rintro ⟨line, bs', hread, h⟩
    refine ⟨(line, bs'), mapError_eq_ok.2 hread, ?_⟩
    simp only
    rcases h with ⟨hblank, rfl⟩ | ⟨q, hq, h⟩
    · rw [if_pos (List.isEmpty_iff.2 hblank)]
    · obtain ⟨⟨name, value⟩, hsplit, rfl⟩ := Option.map_eq_some_iff.1 hq
      have hne : ¬ (trimEndMatches isCrOrLf line).isEmpty := by
        intro hempty
        rw [List.isEmpty_iff.1 hempty] at hsplit
        cases hsplit
      rw [if_neg hne, hsplit]
      exact h

/-- **The header loop returns** when it has read field lines and a line that ends them. -/
theorem readHeaders_eq_ok {p : HeaderMap × Option ℕ} :
    readHeaders (plain e) turns m contentLength bs = .ok (p, rest) ↔
      ∃ lines blank ps, LinesOf e bs (lines ++ [blank]) rest ∧ lines.mapM fieldOf = some ps ∧ IsBlank blank ∧
        lines.length < turns ∧ p = (m.pushAll ps, ps.foldl lengthAfter contentLength) := by
  induction turns generalizing m contentLength bs with
  | zero =>
    constructor
    · intro h
      cases h
    · rintro ⟨lines, blank, ps, -, -, -, hturns, -⟩
      omega
  | succ turns ih =>
    rw [readHeaders_succ]
    constructor
    · rintro ⟨line, bs', hread, ⟨hblank, hp⟩ | ⟨q, hq, h⟩⟩
      · obtain ⟨rfl, rfl⟩ := Prod.mk.inj hp
        exact ⟨[], line, [], .cons hread (.nil _), rfl, hblank, Nat.succ_pos _, rfl⟩
      · obtain ⟨lines, blank, ps, hlines, hps, hblank, hturns, rfl⟩ := ih.1 h
        exact ⟨line :: lines, blank, q :: ps, .cons hread hlines, mapM_fieldOf_cons.2 ⟨q, ps, hq, hps, rfl⟩, hblank,
          Nat.succ_lt_succ hturns, rfl⟩
    · rintro ⟨lines, blank, ps, hlines, hps, hblank, hturns, rfl⟩
      cases lines with
      | nil =>
        obtain ⟨bs', hread, hnil⟩ := linesOf_cons.1 hlines
        obtain rfl := linesOf_nil.1 hnil
        obtain rfl : [] = ps := Option.some.inj hps
        exact ⟨blank, bs', hread, .inl ⟨hblank, rfl⟩⟩
      | cons line lines =>
        obtain ⟨bs', hread, hlines⟩ := linesOf_cons.1 hlines
        obtain ⟨q, qs, hq, hqs, rfl⟩ := mapM_fieldOf_cons.1 hps
        have h := ih.2 ⟨lines, blank, qs, hlines, hqs, hblank, Nat.lt_of_succ_lt_succ hturns, rfl⟩
        exact ⟨line, bs', hread, .inr ⟨q, hq, h⟩⟩

/-- **`read_response` on a head**: the rest is up to the length it found. -/
theorem decode_of_headOf (h : HeadOf e bs code ps rest) :
    decode e bs = readBody (plain e) (ps.foldl lengthAfter none) rest >>= fun p =>
      .ok ({ statusCode := code, headers := HeaderMap.pushAll [] ps, body := p.1 }, p.2) := by
  obtain ⟨status, lines, blank, hlines, hcode, hps, hblank⟩ := h
  obtain ⟨bs', hstatus, hlines⟩ := linesOf_cons.1 hlines
  have hturns : lines.length < bs.length + 1 :=
    Nat.lt_succ_of_le ((length_le_of_linesOf hlines hps).trans (length_le_of_readLine hstatus))
  have hheaders : readHeaders (plain e) (bs.length + 1) [] none bs' = _ :=
    readHeaders_eq_ok.2 ⟨lines, blank, ps, hlines, hps, hblank, hturns, rfl⟩
  unfold decode readResponseWith
  rw [hstatus]
  simp only [Except.mapError, bind, Except.bind, hcode, readRest, hheaders]

/-- `read_response` returns on no other bytes. -/
theorem headOf_of_decode {p : Response × List UInt8} (h : decode e bs = .ok p) : ∃ code ps rest, HeadOf e bs code ps rest := by
  obtain ⟨⟨status, bs'⟩, hstatus, h⟩ := bind_eq_ok.1 h
  obtain ⟨code, hcode, h⟩ := bind_eq_ok.1 h
  obtain ⟨⟨_, rest⟩, hheaders, -⟩ := bind_eq_ok.1 h
  obtain ⟨lines, blank, ps, hlines, hps, hblank, -, -⟩ := readHeaders_eq_ok.1 hheaders
  exact ⟨code, ps, rest, status, lines, blank, .cons (mapError_eq_ok.1 hstatus) hlines, hcode, hps, hblank⟩

/-- **How the header loop fails.**  It has turns enough. -/
theorem readHeaders_error {a : Halt UpstreamError} (hturns : bs.length < turns)
    (h : readHeaders (plain e) turns m contentLength bs = .error a) : a.Regular e := by
  induction turns generalizing m contentLength bs with
  | zero => omega
  | succ turns ih =>
    rw [readHeaders] at h
    rcases bind_eq_error.1 h with h | ⟨⟨line, rest⟩, hread, h⟩
    · obtain ⟨b, hb, rfl⟩ := mapError_eq_error.1 h
      exact Halt.regular_map.2 (readLine_error hb)
    · simp only at h
      split_ifs at h
      split at h
      · obtain rfl := Except.error.inj h
        trivial
      · rename_i hsplit
        have hlt := length_lt_of_readLine (mapError_eq_ok.1 hread) (by rw [fieldOf, hsplit]; rfl)
        exact ih (by omega) h

theorem readBody_panic {n : ℕ} (hn : 2 ^ 63 ≤ n) : readBody (plain e) (some n) bs = .error .panic :=
  if_neg (Nat.not_lt.2 hn)

theorem readBody_error {a : Halt UpstreamError} (h : readBody (plain e) contentLength bs = .error a) :
    (∃ n, contentLength = some n ∧ 2 ^ 63 ≤ n) ∧ a = .panic ∨ a.Regular e := by
  unfold readBody at h
  split at h
  · rename_i n
    split_ifs at h with hsmall
    · obtain ⟨b, hb, rfl⟩ := mapError_eq_error.1 h
      refine .inr (Halt.regular_map.2 ?_)
      simp only [plain, Plain.readExact] at hb
      split_ifs at hb
      cases e with
      | eof | failed =>
        obtain rfl := Except.error.inj hb
        trivial
      | «open» =>
        obtain rfl := Except.error.inj hb
        rfl
    · exact .inl ⟨⟨n, rfl, Nat.not_lt.1 hsmall⟩, (Except.error.inj h).symm⟩
  · cases h

theorem parseStatusLine_error {a : Halt UpstreamError} (h : parseStatusLine line = .error a) : a.Regular e := by
  unfold parseStatusLine at h
  split_ifs at h
  · obtain rfl := Except.error.inj h
    trivial
  · split at h
    · split at h
      · cases h
      · obtain rfl := Except.error.inj h
        trivial
    · obtain rfl := Except.error.inj h
      trivial

/-- **How `read_response` fails**, on the bytes in one piece. -/
theorem decode_error {a : Halt UpstreamError} (h : decode e bs = .error a) :
    Overlong e bs ∧ a = .panic ∨ a.Regular e := by
  rcases bind_eq_error.1 h with h | ⟨⟨status, bs'⟩, hstatus, h⟩
  · obtain ⟨b, hb, rfl⟩ := mapError_eq_error.1 h
    exact .inr (Halt.regular_map.2 (readLine_error hb))
  rcases bind_eq_error.1 h with h | ⟨code, hcode, h⟩
  · exact .inr (parseStatusLine_error h)
  have hstatus := mapError_eq_ok.1 hstatus
  rcases bind_eq_error.1 h with h | ⟨⟨⟨m, contentLength⟩, bs''⟩, hheaders, h⟩
  · exact .inr (readHeaders_error (Nat.lt_succ_of_le (length_le_of_readLine hstatus)) h)
  rcases bind_eq_error.1 h with h | ⟨p, -, h⟩
  · obtain ⟨⟨n, rfl, hn⟩, rfl⟩ | hregular := readBody_error h
    · obtain ⟨lines, blank, ps, hlines, hps, hblank, -, hp⟩ := readHeaders_eq_ok.1 hheaders
      have hhead : HeadOf e bs code ps bs'' := ⟨status, lines, blank, .cons hstatus hlines, hcode, hps, hblank⟩
      exact .inl ⟨⟨code, ps, bs'', n, hhead, (Prod.mk.inj hp).2.symm, hn⟩, rfl⟩
    · exact .inr hregular
  · cases h

theorem decode_overlong (h : Overlong e bs) : decode e bs = .error .panic := by
  obtain ⟨code, ps, rest, n, hhead, hlength, hn⟩ := h
  rw [decode_of_headOf hhead, hlength, readBody_panic hn]
  rfl

/-- **How `read_response` fails**, whatever the segments. -/
theorem readResponse_error {conn : Stream UInt8} {a : Halt UpstreamError} (hwf : ∀ seg ∈ conn.segs, seg ≠ [])
    (h : readResponse conn = .error a) : Overlong conn.ending conn.flat ∧ a = .panic ∨ a.Regular conn.ending :=
  decode_error ((readResponse_eq_error hwf).1 h)

/-- **It panics on a response that announces too much.** -/
theorem readResponse_overlong {conn : Stream UInt8} (hwf : ∀ seg ∈ conn.segs, seg ≠ [])
    (h : Overlong conn.ending conn.flat) : readResponse conn = .error .panic :=
  (readResponse_eq_error hwf).2 (decode_overlong h)

end Panic

end ServiceProxy.Upstream
