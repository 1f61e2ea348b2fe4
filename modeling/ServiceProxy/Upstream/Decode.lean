import ServiceProxy.Upstream.Dial
import ServiceProxy.Lib.Rfc9112

/-!
# What `read_response` makes of a well-formed answer

`read_response` on the bytes of a head is computed line by line: `readLine_field`, `readHeaders_fields`,
`readHead_eq`.  From there the outcome is decided by the `Content-Length` it found.

`readResponse_answer_iff`: it returns the final response of a well-formed answer and takes exactly its bytes off the
connection, whatever the segments, if and only if the answer is `Decodable`: it has no interim response, its texts are
UTF-8 and its content is not chunked, nor left out where `Content-Length` promises some, nor too long for a `Vec`.
-/

namespace ServiceProxy.Upstream

open ServiceProxy.Lib
open ServiceProxy.Lib.Rfc9112 (Field StatusHead Content Answer Chunk ChunkedBody named soleLength isChunked)

/-! ## Lines -/

theorem crlf_eq_encode : Rfc9112.crlf = utf8Encode crlf := by decide

theorem readLine_crlf {line : List UInt8} (h : 10 ∉ line) (e : Ending) (rest : List UInt8) :
    (plain e).readLine (line ++ Rfc9112.crlf ++ rest) =
      match utf8Decode line with
      | some cs => .ok (cs ++ crlf, rest)
      | none => .error (.err .invalidData) := by
  have hsplit : splitAfter 10 (line ++ Rfc9112.crlf ++ rest) = some (line ++ Rfc9112.crlf, rest) := by
    rw [splitAfter_eq_some]
    exact ⟨line ++ [13], by simp [h], by simp [Rfc9112.crlf], by simp [Rfc9112.crlf]⟩
  have hdecode : utf8Decode (line ++ Rfc9112.crlf) = (utf8Decode line).map (· ++ crlf) := by
    rw [crlf_eq_encode, utf8Decode_append_encode line (by simp [crlf])]
  simp only [plain, Plain.readUntil, hsplit, lineOf, bind, Except.bind, hdecode]
  cases utf8Decode line <;> rfl

theorem decode_field (f : Field) :
    utf8Decode f.line = (utf8Decode f.value).map fun v => f.name ++ ':' :: (f.before ++ (v ++ f.after)) := by
  have hafter : ∀ c ∈ f.after, c.toNat < 128 := by
    intro c hc
    rcases f.ows_after hc with rfl | rfl <;> decide
  unfold Field.line
  rw [utf8Decode_append_encode _ hafter, utf8Decode_encode_append, Option.map_map]
  congr 1
  funext v
  simp

theorem not_isCrOrLf_of_value {f : Field} {v : List Char} (hv : utf8Decode f.value = some v) {c : Char} (hc : c ∈ v) :
    ¬ isCrOrLf c := by
  rw [utf8Decode_eq_some] at hv
  have hmem : ∀ d : Char, d.toNat < 128 → d ∈ v → UInt8.ofNat d.toNat ∈ f.value := by
    intro d hd hmem
    rw [← hv]
    exact (mem_utf8Encode hd).2 hmem
  simp only [isCrOrLf, decide_eq_true_eq]
  rintro (rfl | rfl)
  · have := List.all_eq_true.1 f.valid _ (hmem '\r' (by decide) hc)
    exact absurd this (by decide)
  · have := List.all_eq_true.1 f.valid _ (hmem '\n' (by decide) hc)
    exact absurd this (by decide)

theorem not_isCrOrLf_of_field {f : Field} {v : List Char} (hv : utf8Decode f.value = some v) :
    ∀ c ∈ f.name ++ ':' :: (f.before ++ (v ++ f.after)), ¬ isCrOrLf c := by
  intro c hc
  simp only [List.mem_append, List.mem_cons] at hc
  rcases hc with hc | rfl | hc | hc | hc
  · have := (Rfc9112.isToken_iff.1 (f.name_token hc)).1
    simp only [isCrOrLf, decide_eq_true_eq]
    rintro (rfl | rfl) <;> exact absurd this (by decide)
  · decide
  · rcases f.ows_before hc with rfl | rfl <;> decide
  · exact not_isCrOrLf_of_value hv hc
  · rcases f.ows_after hc with rfl | rfl <;> decide

theorem trim_name (f : Field) : trim f.name = f.name := by
  refine trim_of_neg fun c hc => ?_
  obtain ⟨h, h', -⟩ := Rfc9112.isToken_iff.1 (f.name_token hc)
  rw [not_isWhitespace h (by omega)]
  simp

theorem isWhitespace_of_ows {c : Char} (h : c = ' ' ∨ c = '\t') : isWhitespace c := by
  rcases h with rfl | rfl <;> decide

theorem trim_value (f : Field) (v : List Char) : trim (f.before ++ (v ++ f.after)) = trim v :=
  trim_append (fun _ hc => isWhitespace_of_ows (f.ows_before hc)) fun _ hc => isWhitespace_of_ows (f.ows_after hc)

/-! ## The header loop -/

/-- The `Content-Length` after a field with this name and value. -/
def lengthAfter (contentLength : Option ℕ) (p : List Char × List Char) : Option ℕ :=
  if eqIgnoreAsciiCase p.1 "content-length".toList then parseUnsigned (2 ^ 64) p.2 else contentLength

/-- The names and trimmed values of fields whose values are UTF-8. -/
def fieldTexts : List Field → Option (List (List Char × List Char))
  | [] => some []
  | f :: fs => (utf8Decode f.value).bind fun v => (fieldTexts fs).map ((f.name, trim v) :: ·)

theorem readHeaders_field (f : Field) (e : Ending) (turns : ℕ) (headers : HeaderMap) (contentLength : Option ℕ)
    (rest : List UInt8) :
    readHeaders (plain e) (turns + 1) headers contentLength (f.bytes ++ rest) =
      match utf8Decode f.value with
      | some v => readHeaders (plain e) turns (headers.push f.name (trim v))
          (lengthAfter contentLength (f.name, trim v)) rest
      | none => .error (.err (.io .invalidData)) := by
  rw [readHeaders, Field.bytes, readLine_crlf (f.notMem_line (.inr rfl)), decode_field]
  cases hv : utf8Decode f.value with
  | none => rfl
  | some v =>
    have htrim : trimEndMatches isCrOrLf (f.name ++ ':' :: (f.before ++ (v ++ f.after)) ++ crlf) =
        f.name ++ ':' :: (f.before ++ (v ++ f.after)) :=
      trimEndMatches_append (not_isCrOrLf_of_field hv) (by simp [crlf, isCrOrLf])
    simp only [Option.map_some, Except.mapError, bind, Except.bind, htrim]
    rw [if_neg (by simp [f.name_ne]), splitOnce_append f.colon_notMem]
    simp only [trim_name, trim_value, lengthAfter]

theorem readHeaders_crlf (e : Ending) (turns : ℕ) (headers : HeaderMap) (contentLength : Option ℕ) (rest : List UInt8) :
    readHeaders (plain e) (turns + 1) headers contentLength (Rfc9112.crlf ++ rest) =
      .ok ((headers, contentLength), rest) := by
  rw [readHeaders]
  have := @readLine_crlf [] (by simp) e rest
  simp only [List.nil_append] at this
  rw [this]
  rfl

/-- **The header loop on the fields of a head.** -/
theorem readHeaders_fields (fs : List Field) (e : Ending) {turns : ℕ} (hturns : fs.length < turns) (headers : HeaderMap)
    (contentLength : Option ℕ) (rest : List UInt8) :
    readHeaders (plain e) turns headers contentLength (fs.flatMap Field.bytes ++ (Rfc9112.crlf ++ rest)) =
      match fieldTexts fs with
      | some ps => .ok ((headers.pushAll ps, ps.foldl lengthAfter contentLength), rest)
      | none => .error (.err (.io .invalidData)) := by
  induction fs generalizing turns headers contentLength with
  | nil =>
    obtain ⟨n, rfl⟩ : ∃ n, turns = n + 1 := ⟨turns - 1, by omega⟩
    exact readHeaders_crlf e n headers contentLength rest
  | cons f fs ih =>
    obtain ⟨n, rfl⟩ : ∃ n, turns = n + 1 := ⟨turns - 1, by omega⟩
    rw [List.flatMap_cons, List.append_assoc, readHeaders_field]
    simp only [fieldTexts]
    cases hv : utf8Decode f.value with
    | none => rfl
    | some v =>
      simp only [Option.bind_some]
      rw [ih (by simpa using hturns)]
      cases fieldTexts fs with
      | none => rfl
      | some ps => rfl

theorem isSome_fieldTexts {fs : List Field} : (fieldTexts fs).isSome ↔ ∀ f ∈ fs, (utf8Decode f.value).isSome := by
  induction fs with
  | nil => simp [fieldTexts]
  | cons f fs ih =>
    simp only [fieldTexts, List.mem_cons, forall_eq_or_imp, ← ih]
    cases utf8Decode f.value <;> simp

/-! ## The length the header loop finds -/

theorem lengthAfter_of_ne {f : Field} (h : ¬ eqIgnoreAsciiCase f.name Rfc9112.contentLength) (contentLength : Option ℕ)
    (v : List Char) : lengthAfter contentLength (f.name, v) = contentLength := if_neg h

theorem foldl_lengthAfter_of_nil {fs : List Field} {ps : List (List Char × List Char)} (hps : fieldTexts fs = some ps)
    (h : named Rfc9112.contentLength fs = []) (contentLength : Option ℕ) :
    ps.foldl lengthAfter contentLength = contentLength := by
  induction fs generalizing ps with
  | nil =>
    obtain rfl : [] = ps := by simpa [fieldTexts] using hps
    rfl
  | cons f fs ih =>
    simp only [named, List.filter_eq_nil_iff, List.mem_cons, forall_eq_or_imp] at h ih
    simp only [fieldTexts, Option.bind_eq_some_iff, Option.map_eq_some_iff] at hps
    obtain ⟨v, -, qs, hqs, rfl⟩ := hps
    rw [List.foldl_cons, lengthAfter_of_ne h.1]
    exact ih hqs h.2

theorem parse_number {f : Field} {n : ℕ} {v : List Char} (hv : utf8Decode f.value = some v) (hn : Rfc9112.number? f.value = some n) :
    parseUnsigned (2 ^ 64) (trim v) = if n < 2 ^ 64 then some n else none := by
  simp only [Rfc9112.number?, hv, Option.bind_some, Option.ite_none_right_eq_some, Option.some.injEq] at hn
  obtain ⟨⟨hne, hds⟩, rfl⟩ := hn
  have hdigits := List.all_eq_true.1 hds
  have htrim : trim v = v := by
    refine trim_of_neg fun c hc => ?_
    have := isDigit_toNat (hdigits c hc)
    rw [not_isWhitespace (by omega) (by omega)]
    simp
  rw [htrim, parseUnsigned_digits _ hne hdigits]

theorem foldl_lengthAfter_of_sole {fs : List Field} {ps : List (List Char × List Char)} {n : ℕ}
    (hps : fieldTexts fs = some ps) (h : soleLength fs = some n) (contentLength : Option ℕ) :
    ps.foldl lengthAfter contentLength = if n < 2 ^ 64 then some n else none := by
  obtain ⟨g, hg, hn⟩ := Rfc9112.soleLength_eq_some.1 h
  clear h
  induction fs generalizing ps contentLength with
  | nil => simp [named] at hg
  | cons f fs ih =>
    simp only [fieldTexts, Option.bind_eq_some_iff, Option.map_eq_some_iff] at hps
    obtain ⟨v, hv, qs, hqs, rfl⟩ := hps
    rw [List.foldl_cons]
    by_cases hf : eqIgnoreAsciiCase f.name Rfc9112.contentLength
    · -- this is the line, and no other follows
      rw [Rfc9112.named_cons_of_pos hf] at hg
      obtain ⟨rfl, hnil⟩ := List.cons.inj hg
      rw [foldl_lengthAfter_of_nil hqs hnil, ← parse_number hv hn]
      exact if_pos hf
    · rw [Rfc9112.named_cons_of_neg hf] at hg
      rw [lengthAfter_of_ne hf]
      exact ih hqs contentLength hg

/-! ## The status line -/

theorem decode_statusLine (h : StatusHead) :
    utf8Decode h.line = (utf8Decode h.reason).map
      (("HTTP/1.".toList ++ [h.minor, ' '] ++ Nat.toDigits 10 h.code ++ [' ']) ++ ·) :=
  utf8Decode_encode_append _ _

theorem not_isWhitespace_of_isDigit {c : Char} (h : c.isDigit) : isWhitespace c = false := by
  have := isDigit_toNat h
  exact not_isWhitespace (by omega) (by omega)

theorem parseStatusLine_code {version : List Char} (hne : version ≠ []) (hversion : ∀ c ∈ version, isWhitespace c = false)
    {code : ℕ} (hcode : code < 2 ^ 16) (rest : List Char) :
    parseStatusLine (version ++ ' ' :: (Nat.toDigits 10 code ++ ' ' :: rest)) = .ok code := by
  have hdigits : ∀ c ∈ Nat.toDigits 10 code, c.isDigit := fun c hc =>
    Nat.isDigit_of_mem_toDigits (by decide) (by decide) hc
  have htokens : splitWhitespace (version ++ ' ' :: (Nat.toDigits 10 code ++ ' ' :: rest)) =
      version :: Nat.toDigits 10 code :: splitWhitespace rest := by
    rw [splitWhitespace_append hne hversion (by decide),
      splitWhitespace_append Nat.toDigits_ne_nil (fun c hc => not_isWhitespace_of_isDigit (hdigits c hc)) (by decide)]
  unfold parseStatusLine
  rw [if_neg (by simp), htokens]
  simp only [parseUnsigned_digits _ Nat.toDigits_ne_nil hdigits, Nat.ofDigitChars_ten_toDigits, hcode, if_true]

theorem not_isWhitespace_version {c : Char} (h : c ∈ "HTTP/1.".toList) : isWhitespace c = false := by
  have hall : ∀ c ∈ "HTTP/1.".toList, isWhitespace c = false := by simp [isWhitespace]
  exact hall c h

theorem parseStatusLine_head (h : StatusHead) (reason : List Char) :
    parseStatusLine ("HTTP/1.".toList ++ [h.minor, ' '] ++ Nat.toDigits 10 h.code ++ [' '] ++ reason ++ crlf) =
      .ok h.code := by
  have hversion : ∀ c ∈ "HTTP/1.".toList ++ [h.minor], isWhitespace c = false := by
    intro c hc
    rcases List.mem_append.1 hc with hc | hc
    · exact not_isWhitespace_version hc
    · obtain rfl : c = h.minor := by simpa using hc
      exact not_isWhitespace_of_isDigit h.minor_digit
  have hsplit : "HTTP/1.".toList ++ [h.minor, ' '] ++ Nat.toDigits 10 h.code ++ [' '] ++ reason ++ crlf =
      ("HTTP/1.".toList ++ [h.minor]) ++ ' ' :: (Nat.toDigits 10 h.code ++ ' ' :: (reason ++ crlf)) := by simp
  have hlt : h.code < 2 ^ 16 := by have := h.code_lt; omega
  rw [hsplit]
  exact parseStatusLine_code (by simp) hversion hlt _

/-! ## Heads -/

/-- The reason phrase and the values are UTF-8. -/
def Utf8Head (h : StatusHead) : Prop :=
  (utf8Decode h.reason).isSome ∧ ∀ f ∈ h.fields, (utf8Decode f.value).isSome

theorem length_fields_lt (h : StatusHead) (rest : List UInt8) : h.fields.length < (h.bytes ++ rest).length + 1 := by
  have hfields : ∀ fs : List Field, fs.length ≤ (fs.flatMap Field.bytes).length := by
    intro fs
    induction fs with
    | nil => simp
    | cons f fs ih =>
      simp only [List.flatMap_cons, List.length_append, List.length_cons, Field.bytes, Rfc9112.crlf]
      omega
  have := hfields h.fields
  simp only [StatusHead.bytes, List.length_append]
  omega

theorem decode_head (h : StatusHead) (e : Ending) (rest : List UInt8) :
    decode e (h.bytes ++ rest) =
      match utf8Decode h.reason with
      | some _ => readRest (plain e) ((h.bytes ++ rest).length + 1) h.code
          (h.fields.flatMap Field.bytes ++ (Rfc9112.crlf ++ rest))
      | none => .error (.err (.io .invalidData)) := by
  have hbytes : h.bytes ++ rest = h.line ++ Rfc9112.crlf ++ (h.fields.flatMap Field.bytes ++ (Rfc9112.crlf ++ rest)) := by
    simp [StatusHead.bytes]
  unfold decode readResponseWith
  generalize (h.bytes ++ rest).length + 1 = turns
  rw [hbytes, readLine_crlf (h.notMem_line (.inr rfl)), decode_statusLine]
  cases utf8Decode h.reason with
  | none => rfl
  | some reason =>
    simp only [Option.map_some, Except.mapError, bind, Except.bind, parseStatusLine_head]

/-- **`read_response` on a head whose texts are UTF-8**: the rest is up to the length it found. -/
theorem decode_head_utf8 {h : StatusHead} (hu : Utf8Head h) :
    ∃ ps, fieldTexts h.fields = some ps ∧ ∀ (e : Ending) (rest : List UInt8), decode e (h.bytes ++ rest) =
      readBody (plain e) (ps.foldl lengthAfter none) rest >>= fun p =>
        .ok ({ statusCode := h.code, headers := HeaderMap.pushAll [] ps, body := p.1 }, p.2) := by
  obtain ⟨ps, hps⟩ := Option.isSome_iff_exists.1 (isSome_fieldTexts.2 hu.2)
  obtain ⟨reason, hreason⟩ := Option.isSome_iff_exists.1 hu.1
  refine ⟨ps, hps, fun e rest => ?_⟩
  rw [decode_head, hreason]
  simp only
  unfold readRest
  rw [readHeaders_fields h.fields e (length_fields_lt h rest), hps]
  rfl

theorem decode_head_invalid {h : StatusHead} (hu : ¬ Utf8Head h) (e : Ending) (rest : List UInt8) :
    decode e (h.bytes ++ rest) = .error (.err (.io .invalidData)) := by
  rw [decode_head]
  cases hreason : utf8Decode h.reason with
  | none => rfl
  | some reason =>
    have hnone : fieldTexts h.fields = none := by
      by_contra hne
      have := isSome_fieldTexts.1 (Option.isSome_iff_ne_none.2 hne)
      exact hu ⟨by simp [hreason], this⟩
    simp only
    unfold readRest
    rw [readHeaders_fields h.fields e (length_fields_lt h rest), hnone]
    rfl

/-! ## Answers -/

/-- `read_response` can read the answer. -/
def Decodable {method : List Char} (a : Answer method) : Prop :=
  a.interims = [] ∧ Utf8Head a.final ∧
  match a.content with
  | .absent => ∀ n, soleLength a.final.fields = some n → n = 0 ∨ 2 ^ 64 ≤ n
  | .length body => body.length < 2 ^ 63
  | .chunked _ => False

/-- `readBody` takes the bytes `bs` to their end. -/
theorem readBody_eq_all {contentLength : Option ℕ} {e : Ending} {bs body : List UInt8} :
    readBody (plain e) contentLength bs = .ok (body, []) ↔
      match contentLength with
      | none => bs = [] ∧ body = []
      | some n => n < 2 ^ 63 ∧ n = bs.length ∧ body = bs := by
  cases contentLength with
  | none => simp [readBody, eq_comm, and_comm]
  | some n =>
    simp only [readBody]
    by_cases hn : n < 2 ^ 63
    · rw [if_pos hn]
      simp only [plain, Plain.readExact, hn, true_and]
      by_cases hlen : n ≤ bs.length
      · rw [if_pos hlen]
        simp only [Except.mapError, Except.ok.injEq, Prod.mk.injEq, List.drop_eq_nil_iff]
        constructor
        · rintro ⟨rfl, hle⟩
          exact ⟨by omega, List.take_of_length_le hle⟩
        · rintro ⟨rfl, rfl⟩
          exact ⟨List.take_of_length_le le_rfl, le_rfl⟩
      · rw [if_neg hlen]
        constructor
        · cases e <;> simp [Plain.atEnd, Except.mapError]
        · rintro ⟨rfl, -⟩
          omega
    · simp only [hn, if_false, false_and, reduceCtorEq]

/-- The length that `read_response` finds frames the content exactly if the answer is decodable. -/
theorem readBody_content_iff {method : List Char} (a : Answer method) (e : Ending) {ps : List (List Char × List Char)}
    (hps : fieldTexts a.final.fields = some ps) :
    readBody (plain e) (ps.foldl lengthAfter none) a.content.bytes = .ok (a.content.body, []) ↔
      match a.content with
      | .absent => ∀ n, soleLength a.final.fields = some n → n = 0 ∨ 2 ^ 64 ≤ n
      | .length body => body.length < 2 ^ 63
      | .chunked _ => False := by
  have hframed := a.framed
  rw [readBody_eq_all]
  cases hc : a.content with
  | absent =>
    rw [hc] at hframed
    obtain hnil | ⟨-, hsole⟩ := hframed.2
    · have hnone : soleLength a.final.fields = none := by simp [soleLength, hnil]
      rw [foldl_lengthAfter_of_nil hps hnil]
      simp [Content.bytes, Content.body, hnone]
    · obtain ⟨n, hn⟩ := Option.isSome_iff_exists.1 hsole
      rw [foldl_lengthAfter_of_sole hps hn]
      simp only [hn, Option.some.injEq, forall_eq', Content.bytes, Content.body]
      by_cases hlt : n < 2 ^ 64
      · simp only [hlt, if_true, List.length_nil, and_true]
        omega
      · simp only [hlt, if_false, and_self, true_iff]
        omega
  | length body =>
    rw [hc] at hframed
    rw [foldl_lengthAfter_of_sole hps hframed.2.2]
    simp only [Content.bytes, Content.body]
    by_cases hlt : body.length < 2 ^ 64
    · simp only [hlt, if_true, and_self, and_true]
    · simp only [hlt, if_false, and_self]
      constructor
      · rintro rfl
        simp
      · intro h
        omega
  | chunked b =>
    rw [hc] at hframed
    rw [foldl_lengthAfter_of_nil hps hframed.2.1]
    simp [Content.bytes, ChunkedBody.bytes, Rfc9112.crlf]

/-- The response that `read_response` should make of the answer. -/
def IsFinal {method : List Char} (a : Answer method) (resp : Response) : Prop :=
  resp.statusCode = a.final.code ∧ resp.body = a.content.body

/-- **`read_response` on the bytes of an answer in one piece.** -/
theorem decode_answer_iff {method : List Char} (a : Answer method) (e : Ending) :
    (∃ resp, decode e a.bytes = .ok (resp, []) ∧ IsFinal a resp) ↔ Decodable a := by
  cases hi : a.interims with
  | cons h hs =>
    -- the first interim response is taken for the final one
    have hbytes : a.bytes = h.bytes ++ (hs.flatMap StatusHead.bytes ++ a.final.bytes ++ a.content.bytes) := by
      simp [Answer.bytes, hi]
    obtain ⟨hcode, hnil, -⟩ := a.interim h (by simp [hi])
    simp only [Decodable, hi, reduceCtorEq, false_and, iff_false]
    rintro ⟨resp, hresp, hstatus, -⟩
    by_cases hu : Utf8Head h
    · obtain ⟨ps, hps, hdecode⟩ := decode_head_utf8 hu
      rw [hbytes, hdecode, foldl_lengthAfter_of_nil hps hnil] at hresp
      simp only [readBody, bind, Except.bind, Except.ok.injEq, Prod.mk.injEq] at hresp
      obtain ⟨rfl, -⟩ := hresp
      have := a.status
      simp only at hstatus
      omega
    · rw [hbytes, decode_head_invalid hu] at hresp
      cases hresp
  | nil =>
    have hbytes : a.bytes = a.final.bytes ++ a.content.bytes := by simp [Answer.bytes, hi]
    by_cases hu : Utf8Head a.final
    · obtain ⟨ps, hps, hdecode⟩ := decode_head_utf8 hu
      rw [hbytes, hdecode]
      simp only [Decodable, hi, hu, true_and, ← readBody_content_iff a e hps, IsFinal]
      constructor
      · rintro ⟨resp, hresp, -, hbody⟩
        cases hread : readBody (plain e) (ps.foldl lengthAfter none) a.content.bytes with
        | error err => simp [hread, bind, Except.bind] at hresp
        | ok p =>
          simp only [hread, bind, Except.bind, Except.ok.injEq, Prod.mk.injEq] at hresp
          obtain ⟨rfl, hrest⟩ := hresp
          simp only at hbody
          rw [← hbody, ← hrest]
      · intro hread
        rw [hread]
        exact ⟨_, rfl, rfl, rfl⟩
    · rw [hbytes, decode_head_invalid hu]
      simp [Decodable, hu]

/-- **`read_response` reads exactly the decodable answers.**  For every request and every well-formed answer to it: in
whatever segments the answer arrives, and however the connection goes on after it, `read_response` returns the status code
and the decoded body of the final response and leaves none of the answer on the connection, if and only if the answer is
`Decodable`. -/
theorem readResponse_answer_iff (req : Request) (a : Answer req.method) (e : Ending) :
    (∀ segs : List (List UInt8), (∀ seg ∈ segs, seg ≠ []) → segs.flatten = a.bytes →
      ∃ resp r, readResponse ⟨segs, e⟩ = .ok (resp, r) ∧ IsFinal a resp ∧ r.inner.flat = []) ↔ Decodable a := by
  rw [← decode_answer_iff a e]
  constructor
  · intro h
    -- one byte at a time, the reader takes only what it reads
    have hreads := reads_singles a.bytes e
    obtain ⟨resp, r, hread, hfinal, hflat⟩ := h (Stream.singles a.bytes e).segs hreads.wf (flat_singles a.bytes e)
    have hsim := @readResponse_segments True (.singles a.bytes e) (by rwa [flat_singles])
    rw [show readResponse (.singles a.bytes e) = .ok (resp, r) from hread, flat_singles] at hsim
    obtain ⟨rest, hdecode, hr⟩ := hsim
    have hrest : rest = [] := by
      rw [← hr.bytes, (hr.tight trivial).1, hflat]
      rfl
    exact ⟨resp, hrest ▸ hdecode, hfinal⟩
  · rintro ⟨resp, hdecode, hfinal⟩ segs hne hflat
    have hdecode : decode e (Stream.mk segs e).flat = .ok (resp, []) := by
      rw [show (Stream.mk segs e).flat = a.bytes from hflat]
      exact hdecode
    obtain ⟨r, hread, hr⟩ := readResponse_of_decode hne hdecode
    exact ⟨resp, r, hread, hfinal, (List.append_eq_nil_iff.1 hr.bytes).2⟩

/-- `HTTP/1.1 200 OK` with the body `hello` in one chunk. -/
def helloChunked : Answer "POST".toList where
  interims := []
  final := Rfc9112.okHead Rfc9112.chunkedField
  content := .chunked Rfc9112.helloChunk
  interim := by simp
  status := by decide
  framed := by unfold Rfc9112.Framed; decide

/-- **The counter-example.**  The echo upstream answers a `POST` in chunks: `read_response` returns an empty body and
leaves the chunks on the connection. -/
theorem chunked_answer_left_unread :
    ¬ ∀ (req : Request) (a : Answer req.method) (e : Ending) (segs : List (List UInt8)), (∀ seg ∈ segs, seg ≠ []) →
      segs.flatten = a.bytes → ∃ resp r, readResponse ⟨segs, e⟩ = .ok (resp, r) ∧ IsFinal a resp ∧ r.inner.flat = [] := by
  intro h
  obtain ⟨resp, r, hread, ⟨-, hbody⟩, -⟩ := h ⟨"POST".toList, "/echo".toList, [], [], []⟩ helloChunked .open
    [helloChunked.bytes] (by decide) (by simp)
  have hempty : (readResponse ⟨[helloChunked.bytes], .open⟩).map (fun p => p.1.body) = .ok [] := by decide
  rw [hread] at hempty
  have : resp.body = [] := by simpa [Except.map] using hempty
  rw [this] at hbody
  exact absurd hbody (by decide)

end ServiceProxy.Upstream
