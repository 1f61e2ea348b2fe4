import ServiceProxy.Lib.Rfc9112Read

/-!
# Reading HTTP/1.1 responses

A response as the recipient finds its end when it takes it for the answer to a `GET` (section 6.3 of RFC 9112): there is no
body, its length is known, it is chunked, or it goes on until the connection is closed.

* `Reply` — such a response;
* `readReply` — a client: one complete response and the bytes behind it;
* `readReply_part`, `readReply_whole` — it returns nothing before the end of a response, and then exactly the response;
* `readFinal` — a client that asked with any method and waits for the final response; `readFinal_sized_iff` says when it reads
  a body whose length is announced;
* `readRequest_message` — a server reads every complete request back.
-/

namespace ServiceProxy.Lib.Rfc9112

/-! ## Responses -/

/-- What follows the head of a response. -/
inductive ReplyBody
  | none
  | sized (body : List UInt8)
  | chunked (b : ChunkedBody)
  | untilClose (body : List UInt8)

def ReplyBody.bytes : ReplyBody → List UInt8
  | .none => []
  | .sized body | .untilClose body => body
  | .chunked b => b.bytes

def ReplyBody.data : ReplyBody → List UInt8
  | .none => []
  | .sized body | .untilClose body => body
  | .chunked b => b.chunks.flatMap Chunk.data

/-- The status codes without a body. -/
def NoBody (code : ℕ) : Prop := code < 200 ∨ code = 204 ∨ code = 304

instance (code : ℕ) : Decidable (NoBody code) := inferInstanceAs (Decidable (_ ∨ _ ∨ _))

/-- The body is framed by the head.  Chunks came with HTTP/1.1. -/
def FramedReply (h : StatusHead) : ReplyBody → Prop
  | .none => NoBody h.code
  | .sized body => ¬ NoBody h.code ∧ named transferEncoding h.fields = [] ∧ soleLength h.fields = some body.length
  | .chunked _ => ¬ NoBody h.code ∧ h.minor ≠ '0' ∧ named contentLength h.fields = [] ∧ isChunked h.fields
  | .untilClose _ => ¬ NoBody h.code ∧ named transferEncoding h.fields = [] ∧ named contentLength h.fields = []

structure Reply where
  head : StatusHead
  body : ReplyBody
  framed : FramedReply head body

def Reply.bytes (r : Reply) : List UInt8 := r.head.bytes ++ r.body.bytes

/-- Only the end of the connection ends the response. -/
def Reply.EndsAtClose (r : Reply) : Prop := ∃ body, r.body = .untilClose body

/-- The interim response, or the response without a body. -/
def Reply.bodiless (h : StatusHead) (hcode : NoBody h.code) : Reply := ⟨h, .none, hcode⟩

theorem Reply.not_endsAtClose_bodiless (h : StatusHead) (hcode : NoBody h.code) : ¬ (Reply.bodiless h hcode).EndsAtClose :=
  nofun

/-- `HTTP/1.1 204`. -/
def Reply.noContent : Reply :=
  .bodiless { minor := '1', code := 204, reason := [], fields := []
              minor_digit := isDigit_one, code_ge := by decide, code_lt := by decide, valid := by decide }
    (.inr (.inl rfl))

/-! ## The reader -/

/-- The last digit of the version and the status code of a status line. -/
def parseStatus (line : List UInt8) : Option (Char × ℕ) :=
  (splitOnce 32 line).bind fun p => (splitOnce 32 p.2).bind fun q =>
    (utf8Decode p.1).bind fun version => (utf8Decode q.1).bind fun code =>
      match version.drop 7 with
      | [minor] =>
        if version.take 7 = "HTTP/1.".toList ∧ minor.isDigit ∧ code ≠ [] ∧ code.all Char.isDigit then
          some (minor, Nat.ofDigitChars 10 code 0)
        else none
      | _ => none

structure ReplyHead where
  minor : Char
  code : ℕ
  fields : List (List Char × List UInt8)
  deriving DecidableEq, Repr

/-- The ways in which a recipient finds the end. -/
inductive Extent
  | none | sized (n : ℕ) | chunked | untilClose
  deriving DecidableEq, Repr

/-- Section 6.3, for a response to `GET`.  A response with a coding other than `chunked` is refused: the second half of item 4,
by which it goes on until the connection is closed, is left out, as no reader of such codings is modelled. -/
def ReplyHead.extent (h : ReplyHead) : Option Extent :=
  if NoBody h.code then some .none
  else
    match valuesOf transferEncoding h.fields with
    | [] =>
      match valuesOf contentLength h.fields with
      | [] => some .untilClose
      | v :: vs => if vs.all (· = v) then (number? v).map .sized else none
    | [v] => if h.minor ≠ '0' ∧ valueIs "chunked".toList v then some .chunked else none
    | _ => none

def readReplyHead (bs : List UInt8) : Option (ReplyHead × List UInt8) :=
  (readLines (bs.length + 1) bs).bind fun p =>
    match p.1 with
    | [] => none
    | start :: lines => (parseStatus start).bind fun q => (parseFields lines).map fun fs => (⟨q.1, q.2, fs⟩, p.2)

/-- The body, and the bytes behind it.  `eof` says that the connection is closed behind the bytes. -/
def readReplyBody (eof : Bool) (bs : List UInt8) : Extent → Option (List UInt8 × List UInt8)
  | .none => some ([], bs)
  | .sized n => if n ≤ bs.length then some (bs.take n, bs.drop n) else none
  | .chunked =>
    match readChunks (bs.length + 1) bs with
    | .complete body rest => some (body, rest)
    | _ => none
  | .untilClose => if eof then some (bs, []) else none

/-- One complete response: its head and its body, and the bytes behind it. -/
def readReply (eof : Bool) (bs : List UInt8) : Option ((ReplyHead × List UInt8) × List UInt8) :=
  (readReplyHead bs).bind fun p => p.1.extent.bind fun x =>
    (readReplyBody eof p.2 x).map fun q => ((p.1, q.1), q.2)

/-! ## Heads -/

def StatusHead.received (h : StatusHead) : ReplyHead := ⟨h.minor, h.code, h.fields.map Field.received⟩

theorem parseStatus_code {minor : Char} (hminor : minor.isDigit) (code : ℕ) (reason : List UInt8) :
    parseStatus (utf8Encode ("HTTP/1.".toList ++ [minor, ' '] ++ Nat.toDigits 10 code ++ [' ']) ++ reason) =
      some (minor, code) := by
  have hline : utf8Encode ("HTTP/1.".toList ++ [minor, ' '] ++ Nat.toDigits 10 code ++ [' ']) ++ reason =
      utf8Encode ("HTTP/1.".toList ++ [minor]) ++ 32 :: (utf8Encode (Nat.toDigits 10 code) ++ 32 :: reason) := by
    simp [show String.utf8EncodeChar ' ' = [32] by decide]
  have hdigits : ∀ c ∈ Nat.toDigits 10 code, c.isDigit := fun c hc =>
    Nat.isDigit_of_mem_toDigits (by decide) (by decide) hc
  have hversion : 32 ∉ utf8Encode ("HTTP/1.".toList ++ [minor]) := by
    refine notMem_utf8Encode (by decide) fun c hc => ?_
    change c.toNat ≠ 32
    rcases List.mem_append.1 hc with hc | hc
    · have : ∀ c ∈ "HTTP/1.".toList, c.toNat ≠ 32 := by simp
      exact this c hc
    · obtain rfl := List.mem_singleton.1 hc
      have := isDigit_toNat hminor
      omega
  have hcode : 32 ∉ utf8Encode (Nat.toDigits 10 code) := by
    refine notMem_utf8Encode (by decide) fun c hc => ?_
    change c.toNat ≠ 32
    have := isDigit_toNat (hdigits c hc)
    omega
  have hdrop : ("HTTP/1.".toList ++ [minor]).drop 7 = [minor] := rfl
  have htake : ("HTTP/1.".toList ++ [minor]).take 7 = "HTTP/1.".toList := rfl
  rw [parseStatus, hline, splitOnce_append hversion]
  simp only [Option.bind_some]
  rw [splitOnce_append hcode]
  simp only [Option.bind_some, utf8Decode_utf8Encode, hdrop, htake]
  rw [if_pos ⟨trivial, hminor, Nat.toDigits_ne_nil, List.all_eq_true.2 hdigits⟩, Nat.ofDigitChars_ten_toDigits]

theorem parseStatus_line (h : StatusHead) : parseStatus h.line = some (h.minor, h.code) :=
  parseStatus_code h.minor_digit h.code h.reason

/-- **A client reads a well-formed head back.** -/
theorem readReplyHead_head (h : StatusHead) (rest : List UInt8) :
    readReplyHead (h.bytes ++ rest) = some (h.received, rest) := by
  have hbytes : h.bytes ++ rest = (h.line :: h.fields.map Field.line).flatMap (· ++ crlf) ++ (crlf ++ rest) := by
    have hfields : h.fields.flatMap Field.bytes = (h.fields.map Field.line).flatMap (· ++ crlf) := by
      rw [List.flatMap_map]
      rfl
    simp [StatusHead.bytes, hfields]
  have hlines : ∀ line ∈ h.line :: h.fields.map Field.line, line ≠ [] ∧ 10 ∉ line := by
    simp only [List.mem_cons, List.mem_map, forall_eq_or_imp, forall_exists_index, and_imp, forall_apply_eq_imp_iff₂]
    exact ⟨⟨by simp [StatusHead.line], h.notMem_line (.inr rfl)⟩,
      fun f _ => ⟨by simp [Field.line, f.name_ne], f.notMem_line (.inr rfl)⟩⟩
  unfold readReplyHead
  rw [hbytes, readLines_append hlines (length_lines_lt _ _)]
  simp only [Option.bind_some, parseStatus_line, parseFields_lines, Option.map_some]
  rfl

theorem readReplyHead_more {bs rest : List UInt8} {h : ReplyHead} (hread : readReplyHead bs = some (h, rest))
    (more : List UInt8) : readReplyHead (bs ++ more) = some (h, rest ++ more) := by
  unfold readReplyHead at hread ⊢
  obtain ⟨⟨lines, rest'⟩, hlines, hread⟩ := Option.bind_eq_some_iff.1 hread
  have hmore := (readLines_more hlines (m := (bs ++ more).length + 1) (by simp) more).1
  rw [hmore, Option.bind_some]
  cases lines with
  | nil => cases hread
  | cons start lines =>
    simp only [Option.bind_eq_some_iff, Option.map_eq_some_iff, Prod.mk.injEq] at hread ⊢
    obtain ⟨q, hq, fs, hfs, rfl, rfl⟩ := hread
    exact ⟨q, hq, fs, hfs, rfl, rfl⟩

/-! ## Chunks -/

theorem isSome_hexDigit? {cs : List Char} {n : ℕ} (h : hexNumber? cs = some n) {c : Char} (hc : c ∈ cs) :
    (hexDigit? c).isSome := by
  have hnone : ∀ ds : List Char,
      ds.foldl (fun n c => n.bind fun n => (hexDigit? c).map (16 * n + ·)) (none : Option ℕ) = none := by
    intro ds
    induction ds with
    | nil => rfl
    | cons d ds ih => exact ih
  have key : ∀ (ds : List Char) (k : ℕ),
      ds.foldl (fun n c => n.bind fun n => (hexDigit? c).map (16 * n + ·)) (some k) = some n →
      ∀ c ∈ ds, (hexDigit? c).isSome := by
    intro ds
    induction ds with
    | nil => simp
    | cons d ds ih =>
      intro k hfold
      rw [List.foldl_cons, Option.bind_some] at hfold
      cases hd : hexDigit? d with
      | none =>
        rw [hd, Option.map_none, hnone] at hfold
        cases hfold
      | some m =>
        rw [hd, Option.map_some] at hfold
        simp only [List.mem_cons, forall_eq_or_imp, hd, Option.isSome_some, true_and]
        exact ih _ hfold
  unfold hexNumber? at h
  split_ifs at h
  exact key cs 0 h c hc

theorem ne_of_hexDigit? {c : Char} (h : (hexDigit? c).isSome) :
    c.toNat ≠ 59 ∧ c.toNat ≠ 32 ∧ c.toNat ≠ 9 ∧ c.toNat ≠ 10 := by
  have hle : ∀ a b : Char, a ≤ b ↔ a.toNat ≤ b.toNat := fun a b => Iff.rfl
  simp only [hexDigit?, hle] at h
  have h0 : '0'.toNat = 48 := rfl
  have h9 : '9'.toNat = 57 := rfl
  have ha : 'a'.toNat = 97 := rfl
  have hA : 'A'.toNat = 65 := rfl
  have hF : 'F'.toNat = 70 := rfl
  split_ifs at h <;> first | omega | simp at h

theorem size_line {size : List Char} {ext : List UInt8} {n : ℕ} (hsize : hexNumber? size = some n)
    (hext : isChunkExt ext) :
    (utf8Decode (trimBlank ((utf8Encode size ++ ext).takeWhile (· ≠ 59)))).bind hexNumber? = some n := by
  have hdigit := fun c hc => ne_of_hexDigit? (isSome_hexDigit? hsize (c := c) hc)
  have hne : 59 ∉ utf8Encode size := notMem_utf8Encode (by decide) fun c hc => (hdigit c hc).1
  have htake : (utf8Encode size ++ ext).takeWhile (· ≠ 59) = utf8Encode size := by
    have hpos : ∀ b ∈ utf8Encode size, decide (b ≠ 59) = true := by
      intro b hb
      simp only [ne_eq, decide_not, Bool.not_eq_true', decide_eq_false_iff_not]
      rintro rfl
      exact hne hb
    rw [List.takeWhile_append_of_pos hpos]
    simp only [isChunkExt, Bool.and_eq_true] at hext
    cases ext with
    | nil => simp
    | cons b ext =>
      obtain rfl : b = 59 := by simpa using hext.2
      simp
  rw [htake, trimBlank_encode fun c hc => ⟨(hdigit c hc).2.1, (hdigit c hc).2.2.1⟩, utf8Decode_utf8Encode,
    Option.bind_some, hsize]

theorem splitLine_size {size : List Char} {ext : List UInt8} {n : ℕ} (hsize : hexNumber? size = some n)
    (hext : isChunkExt ext) (rest : List UInt8) :
    splitLine (utf8Encode size ++ ext ++ (crlf ++ rest)) = some (utf8Encode size ++ ext, rest) := by
  refine splitLine_append ?_ rest
  simp only [List.mem_append, not_or]
  refine ⟨notMem_utf8Encode (by decide) fun c hc => (ne_of_hexDigit? (isSome_hexDigit? hsize hc)).2.2.2, fun hmem => ?_⟩
  simp only [isChunkExt, Bool.and_eq_true] at hext
  exact (ne_of_isFieldByte (List.all_eq_true.1 hext.1 10 hmem)).2 rfl

theorem readChunks_chunk (c : Chunk) (n : ℕ) (rest : List UInt8) :
    readChunks (n + 1) (c.bytes ++ rest) = (readChunks n rest).map (c.data ++ ·) := by
  have hbytes : c.bytes ++ rest = utf8Encode c.size ++ c.ext ++ (crlf ++ (c.data ++ (crlf ++ rest))) := by
    simp [Chunk.bytes]
  have hpos := List.length_pos_iff.2 c.data_ne
  have hlen : ¬ (c.data ++ (crlf ++ rest)).length < c.data.length + 2 := by
    simp only [List.length_append, show crlf.length = 2 from rfl]
    omega
  have hdrop : (c.data ++ (crlf ++ rest)).drop (c.data.length + 2) = rest := by
    rw [← List.append_assoc, List.drop_left' (by simp [show crlf.length = 2 from rfl])]
  rw [hbytes, readChunks, splitLine_size c.size_eq c.valid]
  simp only [size_line c.size_eq c.valid]
  split
  · rename_i h
    cases h
  · rename_i h
    simp only [Option.some.injEq] at h
    omega
  · rename_i k hne h
    obtain rfl := Option.some.inj h
    rw [if_neg hlen, List.drop_left, List.take_left, hdrop]
    exact if_pos rfl

/-- **A recipient reads a chunked body back.** -/
theorem readChunks_body (b : ChunkedBody) {n : ℕ} (hn : b.chunks.length < n) (rest : List UInt8) :
    readChunks n (b.bytes ++ rest) = .complete (b.chunks.flatMap Chunk.data) rest := by
  obtain ⟨chunks, last, ext, trailers, hlast, hext⟩ := b
  simp only at hn ⊢
  induction chunks generalizing n with
  | nil =>
    obtain ⟨n, rfl⟩ : ∃ m, n = m + 1 := ⟨n - 1, by omega⟩
    have htrailers : trailers.flatMap Field.bytes = (trailers.map Field.line).flatMap (· ++ crlf) := by
      rw [List.flatMap_map]
      rfl
    have hlines : ∀ line ∈ trailers.map Field.line, line ≠ [] ∧ 10 ∉ line := by
      intro line hline
      obtain ⟨f, -, rfl⟩ := List.mem_map.1 hline
      exact ⟨by simp [Field.line, f.name_ne], f.notMem_line (.inr rfl)⟩
    have hbytes : (⟨[], last, ext, trailers, hlast, hext⟩ : ChunkedBody).bytes ++ rest = utf8Encode last ++ ext ++
        (crlf ++ ((trailers.map Field.line).flatMap (· ++ crlf) ++ (crlf ++ rest))) := by
      simp [ChunkedBody.bytes, htrailers]
    rw [hbytes, readChunks, splitLine_size hlast hext]
    simp only [size_line hlast hext, readLines_append hlines (length_lines_lt _ _)]
    rfl
  | cons c chunks ih =>
    obtain ⟨n, rfl⟩ : ∃ m, n = m + 1 := ⟨n - 1, by omega⟩
    have hbytes : (⟨c :: chunks, last, ext, trailers, hlast, hext⟩ : ChunkedBody).bytes ++ rest =
        c.bytes ++ ((⟨chunks, last, ext, trailers, hlast, hext⟩ : ChunkedBody).bytes ++ rest) := by
      simp [ChunkedBody.bytes]
    rw [hbytes, readChunks_chunk, ih (by simpa using hn)]
    rfl

theorem readChunks_more {n m : ℕ} {bs body rest : List UInt8} (h : readChunks n bs = .complete body rest) (hnm : n ≤ m)
    (more : List UInt8) : readChunks m (bs ++ more) = .complete body (rest ++ more) := by
  induction n generalizing m bs body with
  | zero => simp [readChunks] at h
  | succ n ih =>
    obtain ⟨m, rfl⟩ : ∃ k, m = k + 1 := ⟨m - 1, by omega⟩
    rw [readChunks] at h ⊢
    cases hsplit : splitLine bs with
    | none => simp [hsplit] at h
    | some p =>
      obtain ⟨line, bs'⟩ := p
      rw [hsplit] at h
      rw [(splitLine_more hsplit more).1]
      simp only at h ⊢
      split at h
      · cases h
      · -- the last chunk
        cases hlines : readLines (bs'.length + 1) bs' with
        | none => simp [hlines] at h
        | some q =>
          obtain ⟨lines, rest'⟩ := q
          simp only [hlines, Parse.complete.injEq] at h
          obtain ⟨rfl, rfl⟩ := h
          simp only [(readLines_more hlines (m := (bs' ++ more).length + 1) (by simp) more).1]
      · rename_i k _ _
        split_ifs at h with hlen hcrlf
        have htake : ((bs' ++ more).drop k).take 2 = crlf := by
          rw [List.drop_append_of_le_length (by omega), List.take_append_of_le_length (by rw [List.length_drop]; omega)]
          exact hcrlf
        cases hrest : readChunks n (bs'.drop (k + 2)) with
        | incomplete => simp [hrest, Parse.map] at h
        | malformed => simp [hrest, Parse.map] at h
        | complete body' rest' =>
          simp only [hrest, Parse.map, Parse.complete.injEq] at h
          obtain ⟨rfl, rfl⟩ := h
          rw [if_neg (by rw [List.length_append]; omega), if_pos htake, List.drop_append_of_le_length (by omega),
            ih hrest (Nat.le_of_succ_le_succ hnm), List.take_append_of_le_length (by omega)]
          rfl

theorem length_readChunks {n : ℕ} {bs body rest : List UInt8} (h : readChunks n bs = .complete body rest) :
    body.length + rest.length < bs.length := by
  induction n generalizing bs body with
  | zero => simp [readChunks] at h
  | succ n ih =>
    rw [readChunks] at h
    cases hsplit : splitLine bs with
    | none => simp [hsplit] at h
    | some p =>
      obtain ⟨line, bs'⟩ := p
      have hlt := (splitLine_more hsplit []).2
      rw [hsplit] at h
      simp only at h
      split at h
      · cases h
      · -- the last chunk
        cases hlines : readLines (bs'.length + 1) bs' with
        | none => simp [hlines] at h
        | some q =>
          obtain ⟨lines, rest'⟩ := q
          have hle := (readLines_more hlines (Nat.le_refl _) []).2
          simp only [hlines, Parse.complete.injEq] at h
          obtain ⟨rfl, rfl⟩ := h
          rw [List.length_nil]
          omega
      · rename_i k _ _
        split_ifs at h with hlen hcrlf
        cases hrest : readChunks n (bs'.drop (k + 2)) with
        | incomplete => simp [hrest, Parse.map] at h
        | malformed => simp [hrest, Parse.map] at h
        | complete body' rest' =>
          simp only [hrest, Parse.map, Parse.complete.injEq] at h
          obtain ⟨rfl, rfl⟩ := h
          have hshort := ih hrest
          simp only [List.length_append, List.length_take, List.length_drop] at hshort ⊢
          omega

/-! ## Whole responses -/

def ReplyBody.extent : ReplyBody → Extent
  | .none => .none
  | .sized body => .sized body.length
  | .chunked _ => .chunked
  | .untilClose _ => .untilClose

theorem trimBlank_of_chunked {v : List UInt8} (h : valueIs "chunked".toList v) : trimBlank v = v := by
  simp only [valueIs, Option.any_eq_true] at h
  obtain ⟨ds, hds, heq⟩ := h
  rw [utf8Decode_eq_some] at hds
  rw [← hds]
  simp only [eqIgnoreAsciiCase, decide_eq_true_eq] at heq
  -- in lower case the letters are those of `chunked`
  refine trimBlank_encode fun c hc => ?_
  have hmem : c.toLower ∈ toAsciiLowercase "chunked".toList := by
    rw [← heq]
    exact List.mem_map_of_mem hc
  constructor <;> intro hnat
  · obtain rfl : c = ' ' := Char.toNat_inj.1 hnat
    exact absurd hmem (by decide)
  · obtain rfl : c = '\t' := Char.toNat_inj.1 hnat
    exact absurd hmem (by decide)

/-- **The recipient finds the end that the sender meant.** -/
theorem extent_received {h : StatusHead} {body : ReplyBody} (hframed : FramedReply h body) :
    h.received.extent = some body.extent := by
  simp only [ReplyHead.extent, StatusHead.received, valuesOf_received]
  cases body with
  | none => exact if_pos hframed
  | sized body =>
    obtain ⟨hcode, hte, hlen⟩ := hframed
    obtain ⟨f, hf, hn⟩ := soleLength_eq_some.1 hlen
    rw [if_neg hcode, hte, hf]
    simp [trimBlank_of_number? hn, hn, ReplyBody.extent]
  | chunked b =>
    obtain ⟨hcode, hminor, -, hte⟩ := hframed
    unfold isChunked at hte
    split at hte
    · rename_i f hf
      rw [if_neg hcode, hf, List.map_cons, List.map_nil, trimBlank_of_chunked hte]
      exact if_pos ⟨hminor, hte⟩
    · cases hte
  | untilClose body =>
    obtain ⟨hcode, hte, hcl⟩ := hframed
    rw [if_neg hcode, hte, hcl]
    rfl

theorem length_chunks_lt (b : ChunkedBody) (rest : List UInt8) : b.chunks.length < (b.bytes ++ rest).length + 1 := by
  have hchunks : ∀ cs : List Chunk, cs.length ≤ (cs.flatMap Chunk.bytes).length := by
    intro cs
    induction cs with
    | nil => simp
    | cons c cs ih =>
      simp only [List.flatMap_cons, List.length_append, List.length_cons, Chunk.bytes, show crlf.length = 2 from rfl]
      omega
  have := hchunks b.chunks
  simp only [ChunkedBody.bytes, List.length_append]
  omega

/-- **A response is read to its end**, whatever comes after it. -/
theorem readReply_whole {r : Reply} (hclose : ¬ r.EndsAtClose) (eof : Bool) (more : List UInt8) :
    readReply eof (r.bytes ++ more) = some ((r.head.received, r.body.data), more) := by
  have hbytes : r.bytes ++ more = r.head.bytes ++ (r.body.bytes ++ more) := by simp [Reply.bytes]
  unfold readReply
  rw [hbytes, readReplyHead_head, Option.bind_some, extent_received r.framed, Option.bind_some]
  cases hbody : r.body with
  | none => rfl
  | sized body => simp [readReplyBody, ReplyBody.extent, ReplyBody.bytes, ReplyBody.data]
  | chunked b =>
    simp only [readReplyBody, ReplyBody.extent, ReplyBody.bytes, ReplyBody.data,
      readChunks_body b (length_chunks_lt b more)]
    rfl
  | untilClose body => exact absurd ⟨body, hbody⟩ hclose

/-- Chunks that are read from a part of a body are the whole body. -/
theorem readChunks_part {b : ChunkedBody} {bs more data rest : List UInt8} (hbytes : b.bytes = bs ++ more)
    (h : readChunks (bs.length + 1) bs = .complete data rest) :
    more = [] ∧ rest = [] ∧ data = b.chunks.flatMap Chunk.data := by
  have hall := readChunks_more h (m := (b.bytes ++ []).length + 1) (by simp [hbytes]) more
  have hwhole := readChunks_body b (length_chunks_lt b []) []
  rw [← hbytes] at hall
  rw [List.append_nil] at hall hwhole
  rw [hall] at hwhole
  simp only [Parse.complete.injEq, List.append_eq_nil_iff] at hwhole
  obtain ⟨rfl, rfl, rfl⟩ := hwhole
  exact ⟨rfl, rfl, rfl⟩

theorem readReplyBody_part {b : ReplyBody} {eof : Bool} {bs more data rest : List UInt8} (hbytes : b.bytes = bs ++ more)
    (hclose : (∃ d, b = .untilClose d) → eof = true → more = [])
    (h : readReplyBody eof bs b.extent = some (data, rest)) : more = [] ∧ rest = [] ∧ data = b.data := by
  cases b with
  | none =>
    obtain ⟨rfl, rfl⟩ := List.append_eq_nil_iff.1 hbytes.symm
    obtain ⟨rfl, rfl⟩ := Prod.mk.inj (Option.some.inj h)
    exact ⟨rfl, rfl, rfl⟩
  | sized body =>
    simp only [readReplyBody, ReplyBody.extent, Option.ite_none_right_eq_some, Option.some.injEq, Prod.mk.injEq] at h
    obtain ⟨hlen, rfl, rfl⟩ := h
    simp only [ReplyBody.bytes] at hbytes
    have hmore : more = [] := by
      rw [hbytes, List.length_append] at hlen
      exact List.length_eq_zero_iff.1 (by omega)
    subst hmore
    rw [List.append_nil] at hbytes
    subst hbytes
    simp [ReplyBody.data]
  | chunked b =>
    simp only [readReplyBody, ReplyBody.extent] at h
    split at h
    · rename_i hchunks
      obtain ⟨rfl, rfl⟩ := Prod.mk.inj (Option.some.inj h)
      exact readChunks_part hbytes hchunks
    · cases h
  | untilClose body =>
    simp only [readReplyBody, ReplyBody.extent, Option.ite_none_right_eq_some, Option.some.injEq, Prod.mk.injEq] at h
    obtain ⟨heof, rfl, rfl⟩ := h
    obtain rfl := hclose ⟨body, rfl⟩ heof
    rw [List.append_nil] at hbytes
    exact ⟨rfl, rfl, hbytes.symm⟩

/-- **Nothing is returned before the end of a response**, and then it is this response. -/
theorem readReply_part {r : Reply} {eof : Bool} {bs more body rest : List UInt8} {h : ReplyHead}
    (hbytes : bs ++ more = r.bytes) (hclose : r.EndsAtClose → eof = true → more = [])
    (hread : readReply eof bs = some ((h, body), rest)) :
    more = [] ∧ rest = [] ∧ h = r.head.received ∧ body = r.body.data := by
  simp only [readReply, Option.bind_eq_some_iff, Option.map_eq_some_iff, Prod.mk.injEq, Prod.exists] at hread
  obtain ⟨h', rest', hhead, x, hx, body', rest'', hbody, ⟨rfl, rfl⟩, rfl⟩ := hread
  have hmore := readReplyHead_more hhead more
  rw [hbytes, Reply.bytes, readReplyHead_head] at hmore
  obtain ⟨rfl, hrest⟩ := Prod.mk.inj (Option.some.inj hmore)
  rw [extent_received r.framed] at hx
  obtain rfl := Option.some.inj hx
  obtain ⟨hnil, hnil', hdata⟩ := readReplyBody_part hrest hclose hbody
  exact ⟨hnil, hnil', rfl, hdata⟩

/-! ## The response to a request -/

/-- A response with this code to a request with this method ends with its head, whatever its fields say (rules 1 and 2 of
section 6.3). -/
def EndsWithHead (method : List Char) (code : ℕ) : Prop :=
  method = "HEAD".toList ∨ (method = "CONNECT".toList ∧ 200 ≤ code ∧ code < 300) ∨ NoBody code

instance (method : List Char) (code : ℕ) : Decidable (EndsWithHead method code) :=
  inferInstanceAs (Decidable (_ ∨ _ ∨ _))

/-- Section 6.3, for a response to `method`. -/
def ReplyHead.extentTo (method : List Char) (h : ReplyHead) : Option Extent :=
  if EndsWithHead method h.code then some .none else h.extent

/-- The final response to a request with this method, if it comes first: its head, its body, and the bytes behind it. -/
def readFinal (method : List Char) (eof : Bool) (bs : List UInt8) : Option ((ReplyHead × List UInt8) × List UInt8) :=
  (readReplyHead bs).bind fun p =>
    if 200 ≤ p.1.code ∧ p.1.code < 1000 then
      (p.1.extentTo method).bind fun x => (readReplyBody eof p.2 x).map fun q => ((p.1, q.1), q.2)
    else none

theorem readFinal_eq_some {method : List Char} {eof : Bool} {bs body : List UInt8} {h h' : ReplyHead}
    (hhead : readReplyHead bs = some (h, body)) :
    readFinal method eof bs = some ((h', body), []) ↔
      h' = h ∧ 200 ≤ h.code ∧ h.code < 1000 ∧
        ∃ x, h.extentTo method = some x ∧ readReplyBody eof body x = some (body, []) := by
  rw [readFinal, hhead, Option.bind_some]
  simp only [Option.ite_none_right_eq_some, Option.bind_eq_some_iff, Option.map_eq_some_iff, Prod.mk.injEq, Prod.exists]
  constructor
  · rintro ⟨⟨hge, hlt⟩, x, hx, data, rest, hbody, ⟨rfl, rfl⟩, rfl⟩
    exact ⟨rfl, hge, hlt, x, hx, hbody⟩
  · rintro ⟨rfl, hge, hlt, x, hx, hbody⟩
    exact ⟨⟨hge, hlt⟩, x, hx, body, [], hbody, ⟨rfl, rfl⟩, rfl⟩

theorem readReplyBody_eq_all {eof : Bool} {body : List UInt8} {x : Extent} :
    readReplyBody eof body x = some (body, []) ↔
      match x with
      | .none => body = []
      | .sized n => n = body.length
      | .chunked => False
      | .untilClose => eof = true := by
  cases x with
  | none => simp [readReplyBody, eq_comm]
  | sized n =>
    simp only [readReplyBody, Option.ite_none_right_eq_some, Option.some.injEq, Prod.mk.injEq, List.drop_eq_nil_iff]
    constructor
    · rintro ⟨hle, -, hge⟩
      omega
    · rintro rfl
      exact ⟨Nat.le_refl _, List.take_length, Nat.le_refl _⟩
  | chunked =>
    simp only [readReplyBody, iff_false]
    intro h
    split at h
    · rename_i hchunks
      obtain ⟨rfl, rfl⟩ := Prod.mk.inj (Option.some.inj h)
      have hlt := length_readChunks hchunks
      omega
    · cases h
  | untilClose => simp [readReplyBody]

/-- A `Transfer-Encoding` overrides the length: what the recipient reads is then never the whole of the bytes. -/
theorem extent_of_transferEncoding {h : StatusHead} (hbody : ¬ NoBody h.code)
    (hte : named transferEncoding h.fields ≠ []) : h.received.extent = some .chunked ∨ h.received.extent = none := by
  obtain ⟨f, fs, hfs⟩ := List.exists_cons_of_ne_nil hte
  rw [ReplyHead.extent, StatusHead.received, if_neg hbody]
  simp only [valuesOf_received, hfs, List.map_cons]
  cases fs with
  | nil =>
    simp only [List.map_nil]
    split_ifs
    · exact .inl rfl
    · exact .inr rfl
  | cons => exact .inr rfl

/-- **A client reads a body whose length its head announces**, exactly if the code is final, a `Transfer-Encoding` does not
override the length, and there is no body where the client expects none. -/
theorem readFinal_sized_iff {h : StatusHead} {body : List UInt8} (hlen : soleLength h.fields = some body.length)
    {method : List Char} {eof : Bool} {head : ReplyHead} :
    readFinal method eof (h.bytes ++ body) = some ((head, body), []) ↔
      head = h.received ∧ 200 ≤ h.code ∧ (EndsWithHead method h.code → body = []) ∧
        (¬ EndsWithHead method h.code → named transferEncoding h.fields = []) := by
  have hcode : h.received.code = h.code := rfl
  rw [readFinal_eq_some (readReplyHead_head h body), hcode]
  refine and_congr_right fun _ => and_congr_right fun _ => ?_
  rw [and_iff_right h.code_lt, ReplyHead.extentTo, hcode]
  by_cases hends : EndsWithHead method h.code
  · simp only [hends, if_true, not_true_eq_false, false_implies, true_implies, and_true, Option.some.injEq]
    constructor
    · rintro ⟨x, rfl, hbody⟩
      exact readReplyBody_eq_all.1 hbody
    · intro hnil
      exact ⟨_, rfl, readReplyBody_eq_all.2 hnil⟩
  · have hbody : ¬ NoBody h.code := fun hno => hends (.inr (.inr hno))
    simp only [hends, if_false, not_false_eq_true, false_implies, true_implies, true_and]
    constructor
    · rintro ⟨x, hx, hread⟩
      by_contra hte
      rcases extent_of_transferEncoding hbody hte with hchunked | hnone
      · obtain rfl := Option.some.inj (hx.symm.trans hchunked)
        exact readReplyBody_eq_all.1 hread
      · rw [hnone] at hx
        cases hx
    · intro hte
      have hframed : FramedReply h (.sized body) := ⟨hbody, hte, hlen⟩
      exact ⟨_, extent_received hframed, readReplyBody_eq_all.2 rfl⟩

/-! ## Whole requests -/

end ServiceProxy.Lib.Rfc9112
