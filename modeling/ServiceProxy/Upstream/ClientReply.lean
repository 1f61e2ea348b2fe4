import ServiceProxy.Upstream.Overlong
import ServiceProxy.Lib.Rfc9112Reply

/-!
# What a client makes of `write_response`

`write_response` copies every field of the upstream's response but `Connection` and `Content-Length`, and adds its own
`Content-Length`.  A client that follows section 6.3 of RFC 9112 (`Rfc9112.readFinal`) takes these bytes for exactly one
complete response with the body of the upstream's response if and only if the head of the upstream's bytes `Delivers`: a
final status code, names that are tokens, no `Transfer-Encoding`, and no length where there can be no body.

* `readFinal_writeResponse_iff` — the same of the response that is written (`Deliverable`);
* `deliverable_iff` — by the status line and the field lines it was read from.
-/

namespace ServiceProxy.Upstream

open ServiceProxy.Lib
open ServiceProxy.Lib.Rfc9112 (isToken readReplyHead readFinal parseField parseFields trimBlank valuesOf EndsWithHead)

/-- The name of a field line is a token. -/
def isName (k : List Char) : Bool := k ≠ [] ∧ k.all isToken

/-- **The response reaches a client that asked with this method as it is.** -/
structure Deliverable (method : List Char) (resp : Response) : Prop where
  code_ge : 200 ≤ resp.statusCode
  code_lt : resp.statusCode < 1000
  names : ∀ k vs, (k, vs) ∈ resp.headers → isName k
  bodiless : EndsWithHead method resp.statusCode → resp.body = []
  plain : ¬ EndsWithHead method resp.statusCode →
    ∀ k vs, (k, vs) ∈ resp.headers → ¬ eqIgnoreAsciiCase k Rfc9112.transferEncoding

/-- **The answer reaches a client that asked with this method as it is**, by its status line and its field lines. -/
structure Delivers (method : List Char) (code : ℕ) (ps : List (List Char × List Char)) : Prop where
  code_ge : 200 ≤ code
  code_lt : code < 1000
  names : ∀ p ∈ ps, isName p.1
  bodiless : EndsWithHead method code → (ps.foldl lengthAfter none).getD 0 = 0
  plain : ¬ EndsWithHead method code → ∀ p ∈ ps, ¬ eqIgnoreAsciiCase p.1 Rfc9112.transferEncoding

section Lines

variable {k v : List Char} {ps : List (List Char × List Char)} {resp : Response} {m : HeaderMap}

/-- A field line without its end. -/
def fieldLine (p : List Char × List Char) : List UInt8 := utf8Encode (p.1 ++ ':' :: ' ' :: p.2)

/-- The field as a client sees it. -/
def fieldReceived (p : List Char × List Char) : List Char × List UInt8 := (p.1, trimBlank (utf8Encode (' ' :: p.2)))

def statusLine (code : ℕ) : List UInt8 :=
  utf8Encode ("HTTP/1.".toList ++ ['1', ' '] ++ Nat.toDigits 10 code ++ [' ']) ++ utf8Encode (reasonPhrase code)

theorem writeResponse_lines (resp : Response) :
    writeResponse resp =
      (statusLine resp.statusCode :: (HeaderMap.fields (sentHeaders resp)).map fieldLine).flatMap (· ++ Rfc9112.crlf) ++
        (Rfc9112.crlf ++ resp.body) := by
  have hfields : ∀ ps : List (List Char × List Char),
      utf8Encode (ps.flatMap fun p => headerLine p.1 p.2) = (ps.map fieldLine).flatMap (· ++ Rfc9112.crlf) := by
    intro ps
    induction ps with
    | nil => rfl
    | cons p ps ih =>
      rw [List.flatMap_cons, utf8Encode_append, ih]
      simp [headerLine, fieldLine, crlf_eq_encode]
  rw [writeResponse, responseHead_eq, utf8Encode_append, utf8Encode_append, hfields, List.flatMap_cons, statusLine,
    crlf_eq_encode]
  simp

theorem parseField_fieldLine {q : List Char × List UInt8} (hk : ':' ∉ k) :
    parseField (fieldLine (k, v)) = some q ↔ isName k ∧ q = fieldReceived (k, v) := by
  have hline : fieldLine (k, v) = utf8Encode k ++ 58 :: utf8Encode (' ' :: v) := by
    simp [fieldLine, show String.utf8EncodeChar ':' = [58] by decide]
  have hcolon : 58 ∉ utf8Encode k := notMem_encode (c := ':') (by decide) hk
  rw [parseField, hline, splitOnce_append hcolon]
  simp only [Option.bind_some, utf8Decode_utf8Encode, isName, decide_eq_true_eq, fieldReceived,
    Option.ite_none_right_eq_some, Option.some.injEq]
  exact and_congr_right fun _ => eq_comm

theorem parseFields_fieldLines {fs : List (List Char × List UInt8)} (hps : ∀ p ∈ ps, ':' ∉ p.1) :
    parseFields (ps.map fieldLine) = some fs ↔ (∀ p ∈ ps, isName p.1) ∧ fs = ps.map fieldReceived := by
  induction ps generalizing fs with
  | nil =>
    simp only [List.map_nil, parseFields, Option.some.injEq, List.not_mem_nil, false_implies, implies_true, true_and]
    exact eq_comm
  | cons p ps ih =>
    simp only [List.mem_cons, forall_eq_or_imp] at hps
    rw [List.map_cons, parseFields, Option.bind_eq_some_iff]
    constructor
    · rintro ⟨q, hq, hrest⟩
      obtain ⟨fs', hfs', rfl⟩ := Option.map_eq_some_iff.1 hrest
      obtain ⟨hp, rfl⟩ := (parseField_fieldLine hps.1).1 hq
      obtain ⟨hnames, rfl⟩ := (ih hps.2).1 hfs'
      exact ⟨by simpa [hp] using hnames, rfl⟩
    · rintro ⟨hnames, rfl⟩
      rw [List.forall_mem_cons] at hnames
      refine ⟨_, (parseField_fieldLine hps.1).2 ⟨hnames.1, rfl⟩, ?_⟩
      rw [(ih hps.2).2 ⟨hnames.2, rfl⟩]
      rfl

/-- The head that is sent, as a client sees it. -/
def headReceived (resp : Response) : Rfc9112.ReplyHead :=
  ⟨'1', resp.statusCode, (HeaderMap.fields (sentHeaders resp)).map fieldReceived⟩

theorem notMem_statusLine_bytes (code : ℕ) : 10 ∉ statusLine code := by
  have hline : statusLine code =
      utf8Encode ("HTTP/1.1 ".toList ++ Nat.toDigits 10 code ++ [' '] ++ reasonPhrase code) := by
    simp [statusLine]
  rw [hline]
  exact notMem_encode (c := '\n') (by decide) (notMem_statusLine code)

/-- **A client reads the head that is sent** if every name is a token. -/
theorem readReplyHead_writeResponse {h : Rfc9112.ReplyHead} {rest : List UInt8} (hwell : WellRead resp) :
    readReplyHead (writeResponse resp) = some (h, rest) ↔
      (∀ p ∈ HeaderMap.fields (sentHeaders resp), isName p.1) ∧ h = headReceived resp ∧ rest = resp.body := by
  have honline : ∀ p ∈ HeaderMap.fields (sentHeaders resp), OnLine p.1 p.2 := by
    intro p hp
    obtain ⟨vs, hmem, hv⟩ := mem_fields.1 hp
    exact (wellRead_sentHeaders hwell).onLine p.1 vs hmem p.2 hv
  have hlines : ∀ line ∈ statusLine resp.statusCode :: (HeaderMap.fields (sentHeaders resp)).map fieldLine,
      line ≠ [] ∧ 10 ∉ line := by
    intro line hline
    rcases List.mem_cons.1 hline with rfl | hline
    · exact ⟨by simp [statusLine], notMem_statusLine_bytes _⟩
    · obtain ⟨p, hp, rfl⟩ := List.mem_map.1 hline
      have hp' := honline p hp
      exact ⟨by simp [fieldLine], notMem_encode (c := '\n') (by decide) (by simp [hp'.name, hp'.value])⟩
  have hstatus : Rfc9112.parseStatus (statusLine resp.statusCode) = some ('1', resp.statusCode) :=
    Rfc9112.parseStatus_code Rfc9112.isDigit_one _ _
  unfold readReplyHead
  rw [writeResponse_lines, Rfc9112.readLines_append hlines (Rfc9112.length_lines_lt _ _)]
  simp only [Option.bind_some, hstatus, Option.map_eq_some_iff, Prod.mk.injEq,
    parseFields_fieldLines fun p hp => (honline p hp).colon]
  constructor
  · rintro ⟨fs, ⟨hnames, rfl⟩, rfl, rfl⟩
    exact ⟨hnames, rfl, rfl⟩
  · rintro ⟨hnames, rfl, rfl⟩
    exact ⟨_, ⟨hnames, rfl⟩, rfl, rfl⟩

theorem isName_of_lower (h : isName (toAsciiLowercase k)) : isName k := by
  have hchar : ∀ c : Char, isToken c.toLower → isToken c := by
    intro c hc
    by_cases hupper : 65 ≤ c.toNat ∧ c.toNat ≤ 90
    · rw [Rfc9112.isToken_iff]
      simp only [List.mem_cons, List.not_mem_nil, or_false, not_or]
      omega
    · have hsame : c.toLower = c := by
        unfold Char.toLower
        exact dif_neg hupper
      rwa [hsame] at hc
  simp only [isName, decide_eq_true_eq, toAsciiLowercase, ne_eq, List.map_eq_nil_iff, List.all_map, List.all_eq_true,
    Function.comp_apply] at h ⊢
  exact ⟨h.1, fun c hc => hchar c (h.2 c hc)⟩

theorem isName_of_skips (h : skipsInResponse k) : isName k := by
  apply isName_of_lower
  simp only [skipsInResponse, decide_eq_true_eq] at h
  rcases h with h | h <;> rw [h] <;> decide

theorem names_sent (hwell : WellRead resp) :
    (∀ p ∈ HeaderMap.fields (sentHeaders resp), isName p.1) ↔ ∀ k vs, (k, vs) ∈ resp.headers → isName k := by
  constructor
  · intro hnames k vs hmem
    by_cases hskip : skipsInResponse k
    · exact isName_of_skips hskip
    · obtain ⟨v, vs', rfl⟩ := List.exists_cons_of_ne_nil (hwell.headers.values k vs hmem)
      have hsent : (k, v :: vs') ∈ sentHeaders resp := List.mem_append_left _ (List.mem_filter.2 ⟨hmem, by simpa using hskip⟩)
      exact hnames (k, v) (mem_fields.2 ⟨_, hsent, by simp⟩)
  · intro hnames p hp
    obtain ⟨vs, hmem, -⟩ := mem_fields.1 hp
    rcases mem_sentHeaders hmem with ⟨hmem, -⟩ | heq | heq
    · exact hnames _ vs hmem
    · rw [(Prod.mk.inj heq).1]
      decide
    · rw [(Prod.mk.inj heq).1]
      decide

theorem valuesOf_received (n : List Char) (ps : List (List Char × List Char)) :
    valuesOf n (ps.map fieldReceived) =
      (ps.filter fun p => eqIgnoreAsciiCase p.1 n).map fun p => trimBlank (utf8Encode (' ' :: p.2)) := by
  simp only [valuesOf, List.filter_map, List.map_map]
  rfl

theorem contentLength_received (resp : Response) :
    valuesOf Rfc9112.contentLength (headReceived resp).fields = [utf8Encode (Nat.toDigits 10 resp.body.length)] := by
  have hcopied : (HeaderMap.fields (resp.headers.filter fun p => !skipsInResponse p.1)).filter
      (fun p => eqIgnoreAsciiCase p.1 Rfc9112.contentLength) = [] := by
    rw [List.filter_eq_nil_iff]
    exact fun _ => not_contentLength_copied
  have htrim : trimBlank (utf8Encode (' ' :: Nat.toDigits 10 resp.body.length)) =
      utf8Encode (Nat.toDigits 10 resp.body.length) := by
    have hsplit : utf8Encode (' ' :: Nat.toDigits 10 resp.body.length) =
        [32] ++ (utf8Encode (Nat.toDigits 10 resp.body.length) ++ []) := by
      simp [show String.utf8EncodeChar ' ' = [32] by decide]
    rw [trimBlank, hsplit, dropWhile_rdropWhile_append (by simp [Rfc9112.isBlank]) (by simp)]
    exact Rfc9112.trimBlank_of_number? (Rfc9112.number?_toDigits _)
  have hlength : eqIgnoreAsciiCase "Content-Length".toList Rfc9112.contentLength = true := by decide
  have hconn : eqIgnoreAsciiCase "Connection".toList Rfc9112.contentLength = false := by decide
  rw [headReceived, valuesOf_received, fields_sentHeaders, List.filter_append, hcopied, List.nil_append]
  simp only [List.filter_cons, hlength, hconn, if_true, Bool.false_eq_true, if_false, List.filter_nil, List.map_cons,
    List.map_nil, htrim]

theorem not_skips_of_transferEncoding (h : eqIgnoreAsciiCase k Rfc9112.transferEncoding) : skipsInResponse k = false := by
  have hlower : toAsciiLowercase k = "transfer-encoding".toList := by
    simp only [eqIgnoreAsciiCase, decide_eq_true_eq] at h
    exact h.trans (by decide)
  simp only [skipsInResponse, hlower]
  decide

theorem transferEncoding_received (hwell : WellRead resp) :
    valuesOf Rfc9112.transferEncoding (headReceived resp).fields = [] ↔
      ∀ k vs, (k, vs) ∈ resp.headers → ¬ eqIgnoreAsciiCase k Rfc9112.transferEncoding := by
  rw [headReceived, valuesOf_received, List.map_eq_nil_iff, List.filter_eq_nil_iff]
  constructor
  · intro hnone k vs hmem hk
    obtain ⟨v, vs', rfl⟩ := List.exists_cons_of_ne_nil (hwell.headers.values k vs hmem)
    have hsent : (k, v :: vs') ∈ sentHeaders resp :=
      List.mem_append_left _ (List.mem_filter.2 ⟨hmem, by simp [not_skips_of_transferEncoding hk]⟩)
    exact hnone (k, v) (mem_fields.2 ⟨_, hsent, by simp⟩) hk
  · intro hnone p hp hk
    obtain ⟨vs, hmem, -⟩ := mem_fields.1 hp
    rcases mem_sentHeaders hmem with ⟨hmem, -⟩ | heq | heq
    · exact hnone _ vs hmem hk
    · rw [(Prod.mk.inj heq).1] at hk
      exact absurd hk (by decide)
    · rw [(Prod.mk.inj heq).1] at hk
      exact absurd hk (by decide)

/-- What a client takes for the body is the body. -/
theorem body_received_iff (hwell : WellRead resp) (method : List Char) (eof : Bool) :
    (∃ x, (headReceived resp).extentTo method = some x ∧ Rfc9112.readReplyBody eof resp.body x = some (resp.body, [])) ↔
      (EndsWithHead method resp.statusCode → resp.body = []) ∧ (¬ EndsWithHead method resp.statusCode →
        ∀ k vs, (k, vs) ∈ resp.headers → ¬ eqIgnoreAsciiCase k Rfc9112.transferEncoding) := by
  have hcode : (headReceived resp).code = resp.statusCode := rfl
  rw [← transferEncoding_received hwell, Rfc9112.ReplyHead.extentTo, hcode]
  by_cases hends : EndsWithHead method resp.statusCode
  · -- the client stops at the end of the head
    simp only [hends, if_true, Option.some.injEq, not_true_eq_false, false_implies, true_implies, and_true]
    constructor
    · rintro ⟨x, rfl, hbody⟩
      exact Rfc9112.readReplyBody_eq_all.1 hbody
    · intro hnil
      exact ⟨_, rfl, Rfc9112.readReplyBody_eq_all.2 hnil⟩
  · have hnobody : ¬ Rfc9112.NoBody (headReceived resp).code := fun h => hends (.inr (.inr h))
    simp only [hends, if_false, not_false_eq_true, false_implies, true_implies, true_and]
    rw [Rfc9112.ReplyHead.extent, if_neg hnobody, contentLength_received]
    cases valuesOf Rfc9112.transferEncoding (headReceived resp).fields with
    | nil =>
      have hsized : Rfc9112.readReplyBody eof resp.body (.sized resp.body.length) = some (resp.body, []) :=
        Rfc9112.readReplyBody_eq_all.2 rfl
      simp [Rfc9112.number?_toDigits, hsized]
    | cons v vs =>
      -- chunks are never the whole body, and the client knows no other coding
      simp only [reduceCtorEq, iff_false]
      rintro ⟨x, hx, hbody⟩
      cases vs with
      | nil =>
        simp only [Option.ite_none_right_eq_some, Option.some.injEq] at hx
        obtain ⟨-, rfl⟩ := hx
        exact Rfc9112.readReplyBody_eq_all.1 hbody
      | cons => cases hx

/-- A client reads what is written of a response that was read, exactly if it can be delivered. -/
theorem readFinal_writeResponse_iff (hwell : WellRead resp) (method : List Char) (eof : Bool) :
    (∃ head, readFinal method eof (writeResponse resp) = some ((head, resp.body), [])) ↔ Deliverable method resp := by
  constructor
  · rintro ⟨head, hfinal⟩
    obtain ⟨⟨h, rest⟩, hhead, -⟩ := Option.bind_eq_some_iff.1 hfinal
    obtain ⟨hnames, rfl, rfl⟩ := (readReplyHead_writeResponse hwell).1 hhead
    obtain ⟨-, hge, hlt, hbody⟩ := (Rfc9112.readFinal_eq_some hhead).1 hfinal
    obtain ⟨hbodiless, hplain⟩ := (body_received_iff hwell method eof).1 hbody
    exact ⟨hge, hlt, (names_sent hwell).1 hnames, hbodiless, hplain⟩
  · intro h
    have hhead := (readReplyHead_writeResponse hwell).2 ⟨(names_sent hwell).2 h.names, rfl, rfl⟩
    have hbody := (body_received_iff hwell method eof).2 ⟨h.bodiless, h.plain⟩
    exact ⟨_, (Rfc9112.readFinal_eq_some hhead).2 ⟨rfl, h.code_ge, h.code_lt, hbody⟩⟩

theorem forall_mem_pushAll {P : List Char → Prop} :
    (∀ k vs, (k, vs) ∈ HeaderMap.pushAll [] ps → P k) ↔ ∀ p ∈ ps, P p.1 := by
  constructor
  · intro h p hp
    obtain ⟨vs, hmem, -⟩ := HeaderMap.exists_mem_pushAll hp
    exact h p.1 vs hmem
  · intro h k vs hmem
    obtain ⟨hne, hvs⟩ := HeaderMap.mem_pushAll hmem
    obtain ⟨v, hv⟩ := List.exists_mem_of_ne_nil vs hne
    exact h (k, v) (hvs v hv)

theorem length_body {e : Ending} {contentLength : Option ℕ} {bs : List UInt8} {p : List UInt8 × List UInt8}
    (h : readBody (plain e) contentLength bs = .ok p) : p.1.length = contentLength.getD 0 := by
  unfold readBody at h
  split at h
  · split_ifs at h
    obtain ⟨hle, hbody, -⟩ := Plain.readExact_eq_ok.1 (mapError_eq_ok.1 h)
    rw [hbody, List.length_take_of_le hle, Option.getD_some]
  · obtain rfl := Except.ok.inj h
    rfl

theorem deliverable_iff {e : Ending} {bs rest rest' : List UInt8} {code : ℕ} (hhead : HeadOf e bs code ps rest)
    (hdecode : decode e bs = .ok (resp, rest')) (method : List Char) : Deliverable method resp ↔ Delivers method code ps := by
  rw [decode_of_headOf hhead] at hdecode
  obtain ⟨p, hbody, h⟩ := bind_eq_ok.1 hdecode
  obtain ⟨rfl, -⟩ := Prod.mk.inj (Except.ok.inj h)
  have hempty : p.1 = [] ↔ (ps.foldl lengthAfter none).getD 0 = 0 := by
    rw [← length_body hbody, List.length_eq_zero_iff]
  constructor
  · intro h
    exact ⟨h.code_ge, h.code_lt, forall_mem_pushAll.1 h.names, fun hends => hempty.1 (h.bodiless hends),
      fun hends => forall_mem_pushAll.1 (h.plain hends)⟩
  · intro h
    exact ⟨h.code_ge, h.code_lt, forall_mem_pushAll.2 h.names, fun hends => hempty.2 (h.bodiless hends),
      fun hends => forall_mem_pushAll.2 (h.plain hends)⟩

theorem Deliverable.perm {method : List Char} {headers : HeaderMap} (hperm : headers.Perm resp.headers) :
    Deliverable method { resp with headers } ↔ Deliverable method resp := by
  constructor
  · intro h
    exact ⟨h.code_ge, h.code_lt, fun k vs hmem => h.names k vs (hperm.mem_iff.2 hmem), h.bodiless,
      fun hends k vs hmem => h.plain hends k vs (hperm.mem_iff.2 hmem)⟩
  · intro h
    exact ⟨h.code_ge, h.code_lt, fun k vs hmem => h.names k vs (hperm.mem_iff.1 hmem), h.bodiless,
      fun hends k vs hmem => h.plain hends k vs (hperm.mem_iff.1 hmem)⟩

end Lines

/-- **What the proxy sends is framed for its client**, exactly if the head of the answer `Delivers`.  For every answer of an
upstream that `read_response` accepts, whatever the client has asked with, in whatever order the header map is enumerated:
a client that follows section 6.3 of RFC 9112 reads the bytes `write_response` emits as exactly one complete response with
the body of the answer and nothing left over, if and only if the lines of the upstream's head allow it. -/
theorem client_reads_iff {conn : Stream UInt8} (hconn : ∀ seg ∈ conn.segs, seg ≠ []) {resp : Response}
    {r : BufReader UInt8} (hread : readResponse conn = .ok (resp, r)) {headers : HeaderMap}
    (hperm : headers.Perm resp.headers) (method : List Char) (eof : Bool) :
    (∃ head, readFinal method eof (writeResponse { resp with headers }) = some ((head, resp.body), [])) ↔
      ∃ code ps rest, HeadOf conn.ending conn.flat code ps rest ∧ Delivers method code ps := by
  obtain ⟨rest, hdecode, -⟩ := decode_of_readResponse hconn hread
  obtain ⟨hcode, hheaders, hbody⟩ := wellRead_decode hdecode
  have hwell : WellRead { resp with headers } := ⟨hcode, hheaders.perm hperm, hbody⟩
  rw [readFinal_writeResponse_iff hwell method eof, Deliverable.perm hperm]
  constructor
  · intro h
    obtain ⟨code, ps, rest', hhead⟩ := headOf_of_decode hdecode
    exact ⟨code, ps, rest', hhead, (deliverable_iff hhead hdecode method).1 h⟩
  · rintro ⟨code, ps, rest', hhead, h⟩
    exact (deliverable_iff hhead hdecode method).2 h

/-- `HTTP/1.1 200 OK` with the body `hi`. -/
def hiResponse : List UInt8 := utf8Encode "HTTP/1.1 200 OK\r\nServer: echo\r\nContent-Length: 2\r\n\r\nhi".toList

theorem client_reads_hi :
    ∃ resp r head, readResponse ⟨[hiResponse], .open⟩ = .ok (resp, r) ∧ resp.body = [104, 105] ∧
      readFinal "GET".toList true (writeResponse resp) = some ((head, resp.body), []) := by
  have hhi : (readResponse ⟨[hiResponse], .open⟩).map Prod.fst =
      .ok ⟨200, [("Server".toList, ["echo".toList]), ("Content-Length".toList, [['2']])], [104, 105]⟩ := by decide
  cases hread : readResponse ⟨[hiResponse], .open⟩ with
  | error a =>
    rw [hread] at hhi
    cases hhi
  | ok p =>
    obtain ⟨resp, r⟩ := p
    rw [hread] at hhi
    obtain rfl := Except.ok.inj hhi
    have hhead : HeadOf .open hiResponse 200 [("Server".toList, "echo".toList), ("Content-Length".toList, ['2'])]
        [104, 105] :=
      ⟨"HTTP/1.1 200 OK\r\n".toList, ["Server: echo\r\n".toList, "Content-Length: 2\r\n".toList], "\r\n".toList,
        .cons rfl (.cons rfl (.cons rfl (.cons rfl (.nil _)))), by decide, by decide, rfl⟩
    have hdelivers : Delivers "GET".toList 200 [("Server".toList, "echo".toList), ("Content-Length".toList, ['2'])] :=
      ⟨by decide, by decide, by decide, fun hends => absurd hends (by decide), fun _ => by decide⟩
    obtain ⟨head, hfinal⟩ :=
      (client_reads_iff (by decide) hread (List.Perm.refl _) "GET".toList true).2 ⟨_, _, _, hhead, hdelivers⟩
    exact ⟨_, r, head, rfl, rfl, hfinal⟩

/-- **The counter-example.**  The upstream answers in chunks: `read_response` leaves them unread and returns an empty body,
`write_response` copies `Transfer-Encoding: chunked`, and the client waits for chunks that never come. -/
theorem chunked_reply_unframed :
    ¬ ∀ (conn : Stream UInt8) (resp : Response) (r : BufReader UInt8), (∀ seg ∈ conn.segs, seg ≠ []) →
      readResponse conn = .ok (resp, r) →
      ∃ head, readFinal "GET".toList true (writeResponse resp) = some ((head, resp.body), []) := by
  intro h
  have hchunked : (readResponse ⟨[helloChunked.bytes], .open⟩).map Prod.fst =
      .ok ⟨200, [("Transfer-Encoding".toList, ["chunked".toList])], []⟩ := by decide
  cases hread : readResponse ⟨[helloChunked.bytes], .open⟩ with
  | error a =>
    rw [hread] at hchunked
    cases hchunked
  | ok p =>
    obtain ⟨resp, r⟩ := p
    rw [hread] at hchunked
    obtain rfl := Except.ok.inj hchunked
    obtain ⟨head, hfinal⟩ := h _ _ _ (by decide) hread
    have hnone : readFinal "GET".toList true
        (writeResponse ⟨200, [("Transfer-Encoding".toList, ["chunked".toList])], []⟩) = none := by decide
    rw [hnone] at hfinal
    cases hfinal

end ServiceProxy.Upstream
