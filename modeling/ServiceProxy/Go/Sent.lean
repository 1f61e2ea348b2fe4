import ServiceProxy.Go.Dial
import ServiceProxy.Lib.Rfc9112Reply
import ServiceProxy.Upstream.Sent

/-!
# What Go sends (`writeRequest` and `WriteResponse`)

Both functions copy a header, leave out the keys that they write themselves, and write a length of their own.  The keys of the
library are canonical, so that leaving out the key `Content-Length` leaves out every spelling of it.

* `exists_fields` — what can stand on field lines is sent as well-formed fields;
* `readRequest_writeRequest` — a server that follows RFC 9112 reads back what `writeRequest` sends;
* `readFinal_writeResponse_iff` — when a client does so with what `WriteResponse` sends.

`http.StatusText` is a parameter.
-/

namespace ServiceProxy.Go

open ServiceProxy.Lib
open ServiceProxy.Lib.Rfc9112 (crlf Field RequestHead StatusHead isToken isVisible isFieldByte named soleLength EndsWithHead)

/-! ## The code -/

/-- The keys that `WriteResponse` does not copy. -/
def skipsInResponse (k : List Char) : Bool := k = "Connection".toList ∨ k = "Content-Length".toList

/-- `WriteResponse`. -/
def writeResponse (statusText : ℕ → List UInt8) (resp : Response) : List UInt8 :=
  utf8Encode ("HTTP/1.1 ".toList ++ Nat.toDigits 10 resp.statusCode ++ " ".toList) ++ statusText resp.statusCode ++
    utf8Encode "\r\n".toList ++
    (resp.header.flatMap fun (k, values) => if skipsInResponse k then [] else values.flatMap (headerLine k)) ++
    utf8Encode ("Content-Length: ".toList ++ Nat.toDigits 10 resp.body.length ++ "\r\nConnection: close\r\n\r\n".toList) ++
    resp.body

/-- `WriteError`. -/
def writeError (statusText : ℕ → List UInt8) (statusCode : ℕ) : List UInt8 :=
  writeResponse statusText { statusCode, header := [], body := [] }

/-! ## Fields -/

/-- The key and the value can stand on a field line. -/
structure Sendable (k : List Char) (v : List UInt8) : Prop where
  name_ne : k ≠ []
  token : k.all isToken
  valid : v.all isFieldByte

/-- The field that is sent for them. -/
def Sendable.field {k : List Char} {v : List UInt8} (h : Sendable k v) : Field where
  name := k
  before := [' ']
  value := v
  after := []
  name_ne := h.name_ne
  token := h.token
  ows := Rfc9112.isOws_space
  valid := h.valid

/-- The fields of a header but those that are left out. -/
def fieldsOf (skips : List Char → Bool) (header : Header) : List (List Char × List UInt8) :=
  header.flatMap fun (k, values) => if skips k then [] else values.map fun v => (k, v)

/-- The last two fields. -/
def lastFields (length : ℕ) (connection : String) : List (List Char × List UInt8) :=
  [("Content-Length".toList, utf8Encode (Nat.toDigits 10 length)), ("Connection".toList, utf8Encode connection.toList)]

section Fields

variable {skips : List Char → Bool} {header : Header} {k : List Char} {v : List UInt8} {p : List Char × List UInt8}
  {ps : List (List Char × List UInt8)}

theorem Sendable.bytes_field (h : Sendable k v) : h.field.bytes = headerLine k v := by
  simp [Sendable.field, Field.bytes, Field.line, headerLine]

theorem mem_fieldsOf : p ∈ fieldsOf skips header ↔ ∃ vs, (p.1, vs) ∈ header ∧ p.2 ∈ vs ∧ ¬ skips p.1 := by
  obtain ⟨k, v⟩ := p
  simp only [fieldsOf, List.mem_flatMap, Prod.exists]
  constructor
  · rintro ⟨k', vs, hmem, h⟩
    split_ifs at h with hskip
    · cases h
    · obtain ⟨w, hw, heq⟩ := List.mem_map.1 h
      obtain ⟨rfl, rfl⟩ := Prod.mk.inj heq
      exact ⟨vs, hmem, hw, hskip⟩
  · rintro ⟨vs, hmem, hv, hskip⟩
    exact ⟨k, vs, hmem, by rw [if_neg hskip]; exact List.mem_map.2 ⟨v, hv, rfl⟩⟩

theorem flatMap_fieldsOf (skips : List Char → Bool) (header : Header) :
    (header.flatMap fun (k, values) => if skips k then [] else values.flatMap (headerLine k)) =
      (fieldsOf skips header).flatMap fun p => headerLine p.1 p.2 := by
  rw [fieldsOf, List.flatMap_assoc]
  refine List.flatMap_congr fun p _ => ?_
  obtain ⟨k, values⟩ := p
  simp only
  split_ifs
  · rfl
  · rw [List.flatMap_map]

theorem flatMap_lastFields (length : ℕ) (connection : String) :
    (lastFields length connection).flatMap (fun p => headerLine p.1 p.2) ++ crlf =
      utf8Encode ("Content-Length: ".toList ++ Nat.toDigits 10 length ++ "\r\nConnection: ".toList) ++
        (utf8Encode connection.toList ++ utf8Encode "\r\n\r\n".toList) := by
  have hlength : utf8Encode "Content-Length: ".toList =
      utf8Encode "Content-Length".toList ++ utf8Encode ": ".toList := by decide
  have hconn : utf8Encode "\r\nConnection: ".toList =
      crlf ++ (utf8Encode "Connection".toList ++ utf8Encode ": ".toList) := by decide
  have hend : utf8Encode "\r\n\r\n".toList = crlf ++ crlf := by decide
  simp only [utf8Encode_append, hlength, hconn, hend, lastFields, List.flatMap_cons, List.flatMap_nil, headerLine,
    List.append_assoc, List.append_nil]

/-- **Fields that can stand on lines are sent as well-formed fields.** -/
theorem exists_fields (h : ∀ p ∈ ps, Sendable p.1 p.2) :
    ∃ fs : List Field, fs.flatMap Field.bytes = ps.flatMap (fun p => headerLine p.1 p.2) ∧
      fs.map (fun f => (f.name, f.value)) = ps := by
  induction ps with
  | nil => exact ⟨[], rfl, rfl⟩
  | cons p ps ih =>
    obtain ⟨hp, hps⟩ := List.forall_mem_cons.1 h
    obtain ⟨fs, hbytes, hpairs⟩ := ih hps
    refine ⟨hp.field :: fs, ?_, ?_⟩
    · rw [List.flatMap_cons, List.flatMap_cons, hbytes, hp.bytes_field]
    · rw [List.map_cons, hpairs]
      rfl

theorem sendable_lastFields (length : ℕ) {connection : String} (h : (utf8Encode connection.toList).all isFieldByte) :
    ∀ p ∈ lastFields length connection, Sendable p.1 p.2 := by
  intro p hp
  simp only [lastFields, List.mem_cons, List.not_mem_nil, or_false] at hp
  rcases hp with rfl | rfl
  · have hnumber := Upstream.sendable_number "Content-Length".toList length (by decide) (by decide)
    exact ⟨hnumber.name_ne, hnumber.token, hnumber.valid⟩
  · exact ⟨List.cons_ne_nil _ _, show "Connection".toList.all isToken by decide, h⟩

theorem filter_lastFields (length : ℕ) (connection : String) {n : List Char}
    (hconn : eqIgnoreAsciiCase "Connection".toList n = false) :
    (lastFields length connection).filter (fun p => eqIgnoreAsciiCase p.1 n) =
      if eqIgnoreAsciiCase "Content-Length".toList n then
        [("Content-Length".toList, utf8Encode (Nat.toDigits 10 length))] else [] :=
  Upstream.filter_two (b := ("Connection".toList, utf8Encode connection.toList)) hconn

theorem soleLength_of_pairs {fs : List Field} {length : ℕ} {connection : String}
    (hfs : fs.map (fun f => (f.name, f.value)) = ps ++ lastFields length connection)
    (hps : ∀ p ∈ ps, ¬ eqIgnoreAsciiCase p.1 Rfc9112.contentLength) : soleLength fs = some length := by
  have hnil : ps.filter (fun p => eqIgnoreAsciiCase p.1 Rfc9112.contentLength) = [] := List.filter_eq_nil_iff.2 hps
  have hone : (named Rfc9112.contentLength fs).map (fun f => (f.name, f.value)) =
      [("Content-Length".toList, utf8Encode (Nat.toDigits 10 length))] := by
    rw [Upstream.map_named, hfs, List.filter_append, hnil, filter_lastFields _ _ (by decide), if_pos (by decide),
      List.nil_append]
  obtain ⟨f, hf, hpair⟩ := List.map_eq_singleton_iff.1 hone
  rw [Rfc9112.soleLength_eq_some]
  exact ⟨f, hf, by rw [(Prod.mk.inj hpair).2, Rfc9112.number?_toDigits]⟩

theorem named_transferEncoding_of_pairs {fs : List Field} {length : ℕ} {connection : String}
    (hfs : fs.map (fun f => (f.name, f.value)) = ps ++ lastFields length connection) :
    named Rfc9112.transferEncoding fs = [] ↔ ∀ p ∈ ps, ¬ eqIgnoreAsciiCase p.1 Rfc9112.transferEncoding := by
  rw [← List.map_eq_nil_iff (f := fun f : Field => (f.name, f.value)), Upstream.map_named, hfs, List.filter_append,
    filter_lastFields _ _ (by decide), if_neg (by decide), List.append_nil, List.filter_eq_nil_iff]

end Fields

/-! ## Headers of the library -/

/-- A header as the library hands it over: its keys are canonical tokens, and its values can stand on their lines. -/
structure Header.Valid (header : Header) : Prop where
  key : ∀ k vs, (k, vs) ∈ header → canonicalMIMEHeaderKey k = k ∧ k ≠ [] ∧ k.all isToken
  value : ∀ k vs, (k, vs) ∈ header → ∀ v ∈ vs, v.all isFieldByte

/-- It has no `Transfer-Encoding`: the library keeps that apart. -/
def Header.Plain (header : Header) : Prop :=
  ∀ k vs, (k, vs) ∈ header → eqIgnoreAsciiCase k Rfc9112.transferEncoding → vs = []

section Valid

variable {header : Header} {skips : List Char → Bool} {p : List Char × List UInt8}

/-- A canonical key that names the length is spelled as `Content-Length`. -/
theorem not_contentLength_of_valid (h : header.Valid) (hskips : skips "Content-Length".toList) (hp : p ∈ fieldsOf skips header) :
    ¬ eqIgnoreAsciiCase p.1 Rfc9112.contentLength := by
  intro hk
  obtain ⟨vs, hmem, -, hskip⟩ := mem_fieldsOf.1 hp
  have hname : canonicalMIMEHeaderKey Rfc9112.contentLength = "Content-Length".toList := by decide
  rw [eq_canonical (by decide) (h.key _ vs hmem).1 hk, hname] at hskip
  exact hskip hskips

theorem not_skips_of_transferEncoding {k : List Char} (h : canonicalMIMEHeaderKey k = k)
    (hk : eqIgnoreAsciiCase k Rfc9112.transferEncoding) : k = "Transfer-Encoding".toList := by
  have hname : canonicalMIMEHeaderKey Rfc9112.transferEncoding = "Transfer-Encoding".toList := by decide
  rw [eq_canonical (by decide) h hk, hname]

theorem plain_iff (h : header.Valid) (hskips : skips "Transfer-Encoding".toList = false) :
    (∀ p ∈ fieldsOf skips header, ¬ eqIgnoreAsciiCase p.1 Rfc9112.transferEncoding) ↔ header.Plain := by
  constructor
  · intro hnone k vs hmem hk
    by_contra hne
    obtain ⟨v, vs', rfl⟩ := List.exists_cons_of_ne_nil hne
    have hkey := not_skips_of_transferEncoding (h.key k _ hmem).1 hk
    refine hnone (k, v) (mem_fieldsOf.2 ⟨_, hmem, List.mem_cons_self, ?_⟩) hk
    rw [hkey, hskips]
    exact Bool.false_ne_true
  · intro hplain p hp hk
    obtain ⟨vs, hmem, hv, -⟩ := mem_fieldsOf.1 hp
    rw [hplain p.1 vs hmem hk] at hv
    cases hv

theorem sendable_fieldsOf (h : header.Valid) (hp : p ∈ fieldsOf skips header) : Sendable p.1 p.2 := by
  obtain ⟨vs, hmem, hv, -⟩ := mem_fieldsOf.1 hp
  obtain ⟨-, hne, htoken⟩ := h.key _ vs hmem
  exact ⟨hne, htoken, h.value _ vs hmem _ hv⟩

theorem Header.Valid.perm {header' : Header} (h : header.Valid) (hperm : header'.Perm header) : header'.Valid :=
  ⟨fun k vs hmem => h.key k vs (hperm.mem_iff.1 hmem), fun k vs hmem => h.value k vs (hperm.mem_iff.1 hmem)⟩

theorem Header.Plain.perm {header' : Header} (h : header.Plain) (hperm : header'.Perm header) : header'.Plain :=
  fun k vs hmem => h k vs (hperm.mem_iff.1 hmem)

end Valid

/-! ## Requests -/

/-- A request for this target that can be sent. -/
structure SendableRequest (req : Request) (target : List Char) : Prop where
  method_ne : req.method ≠ []
  method : req.method.all isToken
  target_ne : target ≠ []
  visible : target.all isVisible
  path : req.path = utf8Encode target
  host : req.host.all isFieldByte
  header : req.header.Valid

theorem SendableRequest.carried {req : Request} {target : List Char} (h : SendableRequest req target) : Carried req where
  method hmem := absurd (List.all_eq_true.1 h.method _ hmem) (by decide)
  path hmem := by
    rw [h.path] at hmem
    refine notMem_encode (c := '\n') (by decide) (fun hlf => ?_) hmem
    exact absurd (List.all_eq_true.1 h.visible _ hlf) (by decide)
  host hmem := (Rfc9112.ne_of_isFieldByte (List.all_eq_true.1 h.host 10 hmem)).2 rfl
  key k vs hmem := by
    obtain ⟨hcanonical, -, htoken⟩ := h.header.key k vs hmem
    have hnot : ∀ c, isToken c = false → c ∉ k := by
      intro c hc hmem
      rw [List.all_eq_true.1 htoken c hmem] at hc
      cases hc
    exact ⟨hcanonical, hnot _ (by decide), hnot _ (by decide)⟩
  value k vs hmem v hv hlf := (Rfc9112.ne_of_isFieldByte (List.all_eq_true.1 (h.header.value k vs hmem v hv) 10 hlf)).2 rfl

/-- The field lines that `writeRequest` sends. -/
def requestFields (req : Request) : List (List Char × List UInt8) :=
  (if req.host.isEmpty then [] else [("Host".toList, req.host)]) ++ fieldsOf skipsInRequest req.header ++
    lastFields req.body.length "keep-alive"

section Requests

variable {req : Request} {target : List Char}

theorem writeRequest_eq (req : Request) :
    writeRequest req = utf8Encode req.method ++ utf8Encode " ".toList ++ req.path ++ utf8Encode " HTTP/1.1\r\n".toList ++
      (requestFields req).flatMap (fun p => headerLine p.1 p.2) ++ crlf ++ req.body := by
  have hhost : (if req.host.isEmpty then [] else headerLine "Host".toList req.host) =
      (if req.host.isEmpty then [] else [("Host".toList, req.host)]).flatMap fun p => headerLine p.1 p.2 := by
    split_ifs
    · rfl
    · simp only [List.flatMap_cons, List.flatMap_nil, List.append_nil]
  have hlast := flatMap_lastFields req.body.length "keep-alive"
  have hend : utf8Encode ("Content-Length: ".toList ++ Nat.toDigits 10 req.body.length ++
      "\r\nConnection: keep-alive\r\n\r\n".toList) =
      (lastFields req.body.length "keep-alive").flatMap (fun p => headerLine p.1 p.2) ++ crlf := by
    have hsplit : "\r\nConnection: keep-alive\r\n\r\n".toList =
        "\r\nConnection: ".toList ++ ("keep-alive".toList ++ "\r\n\r\n".toList) := by decide
    rw [hlast, hsplit]
    simp only [utf8Encode_append, List.append_assoc]
  unfold writeRequest requestFields copiedLines
  rw [hend, hhost, flatMap_fieldsOf]
  simp only [List.flatMap_append, List.append_assoc]

theorem SendableRequest.fields (h : SendableRequest req target) : ∀ p ∈ requestFields req, Sendable p.1 p.2 := by
  intro p hp
  rcases List.mem_append.1 hp with hp | hp
  · rcases List.mem_append.1 hp with hp | hp
    · split_ifs at hp
      · cases hp
      · obtain rfl := List.mem_singleton.1 hp
        exact ⟨List.cons_ne_nil _ _, show "Host".toList.all isToken by decide, h.host⟩
    · exact sendable_fieldsOf h.header hp
  · exact sendable_lastFields _ (by decide) p hp

/-- **`writeRequest` sends a well-formed head and the body.** -/
theorem writeRequest_eq_head (h : SendableRequest req target) :
    ∃ head : RequestHead, writeRequest req = head.bytes ++ req.body ∧ head.method = req.method ∧ head.target = target ∧
      soleLength head.fields = some req.body.length ∧
      (named Rfc9112.transferEncoding head.fields = [] ↔ req.header.Plain) := by
  obtain ⟨fs, hbytes, hpairs⟩ := exists_fields h.fields
  have hfront : ∀ (n : List Char), eqIgnoreAsciiCase "Host".toList n = false →
      ((∀ p ∈ (if req.host.isEmpty then [] else [("Host".toList, req.host)]) ++ fieldsOf skipsInRequest req.header,
        ¬ eqIgnoreAsciiCase p.1 n) ↔ ∀ p ∈ fieldsOf skipsInRequest req.header, ¬ eqIgnoreAsciiCase p.1 n) := by
    intro n hn
    split_ifs
    · rw [List.nil_append]
    · rw [List.singleton_append, List.forall_mem_cons]
      exact and_iff_right (by rw [hn]; exact Bool.false_ne_true)
  refine ⟨⟨req.method, target, fs, h.method_ne, h.target_ne, h.method, h.visible⟩, ?_, rfl, rfl, ?_, ?_⟩
  · have hversion : utf8Encode " HTTP/1.1\r\n".toList = utf8Encode " HTTP/1.1".toList ++ crlf := by decide
    rw [writeRequest_eq, h.path, hversion]
    simp only [RequestHead.bytes, RequestHead.line, hbytes, utf8Encode_append, utf8Encode_cons, List.append_assoc]
    rfl
  · refine soleLength_of_pairs hpairs ((hfront _ (by decide)).2 fun p hp => ?_)
    exact not_contentLength_of_valid h.header (by decide) hp
  · rw [named_transferEncoding_of_pairs hpairs, hfront _ (by decide), plain_iff h.header (by decide)]

/-- **A server reads back what `writeRequest` sends.** -/
theorem readRequest_writeRequest (h : SendableRequest req target) (hplain : req.header.Plain) :
    Rfc9112.readRequest (writeRequest req) = .complete ⟨req.method, target, req.body⟩ [] := by
  obtain ⟨head, hbytes, hmethod, htarget, hlen, hnamed⟩ := writeRequest_eq_head h
  rw [hbytes, Rfc9112.readRequest_head, Rfc9112.framing_of_soleLength (hnamed.2 hplain) hlen]
  simp [Rfc9112.readFramed, Rfc9112.Parse.map, hmethod, htarget]

end Requests

/-! ## Responses -/

/-- A response that can be sent: its code has a status line, and its header is one of the library. -/
structure SendableResponse (statusText : ℕ → List UInt8) (resp : Response) : Prop where
  code_ge : 100 ≤ resp.statusCode
  code_lt : resp.statusCode < 1000
  text : (statusText resp.statusCode).all isFieldByte
  header : resp.header.Valid

/-- **A client reads the response as it is**, when it asked with this method. -/
structure Deliverable (method : List Char) (resp : Response) : Prop where
  final : 200 ≤ resp.statusCode
  bodiless : EndsWithHead method resp.statusCode → resp.body = []
  plain : ¬ EndsWithHead method resp.statusCode → resp.header.Plain

section Responses

variable {statusText : ℕ → List UInt8} {resp : Response}

/-- **`WriteResponse` sends a well-formed head and the body.** -/
theorem writeResponse_eq_head (h : SendableResponse statusText resp) :
    ∃ head : StatusHead, writeResponse statusText resp = head.bytes ++ resp.body ∧ head.code = resp.statusCode ∧
      soleLength head.fields = some resp.body.length ∧
      (named Rfc9112.transferEncoding head.fields = [] ↔ resp.header.Plain) := by
  have hsend : ∀ p ∈ fieldsOf skipsInResponse resp.header ++ lastFields resp.body.length "close", Sendable p.1 p.2 := by
    intro p hp
    rcases List.mem_append.1 hp with hp | hp
    · exact sendable_fieldsOf h.header hp
    · exact sendable_lastFields _ (by decide) p hp
  obtain ⟨fs, hbytes, hpairs⟩ := exists_fields hsend
  refine ⟨⟨'1', resp.statusCode, statusText resp.statusCode, fs, Rfc9112.isDigit_one, h.code_ge, h.code_lt, h.text⟩, ?_, rfl,
    ?_, ?_⟩
  · have hend : utf8Encode ("Content-Length: ".toList ++ Nat.toDigits 10 resp.body.length ++
        "\r\nConnection: close\r\n\r\n".toList) =
        (lastFields resp.body.length "close").flatMap (fun p => headerLine p.1 p.2) ++ crlf := by
      have hsplit : "\r\nConnection: close\r\n\r\n".toList =
          "\r\nConnection: ".toList ++ ("close".toList ++ "\r\n\r\n".toList) := by decide
      rw [flatMap_lastFields, hsplit]
      simp only [utf8Encode_append, List.append_assoc]
    have hline : utf8Encode "\r\n".toList = crlf := by decide
    have hversion : utf8Encode "HTTP/1.1 ".toList = utf8Encode "HTTP/1.".toList ++ utf8Encode ['1', ' '] := by decide
    unfold writeResponse
    rw [hend, flatMap_fieldsOf]
    simp only [StatusHead.bytes, StatusHead.line, hbytes, hline, hversion, utf8Encode_append, List.flatMap_append,
      List.append_assoc]
    rfl
  · exact soleLength_of_pairs hpairs fun p hp => not_contentLength_of_valid h.header (by decide) hp
  · rw [named_transferEncoding_of_pairs hpairs, plain_iff h.header (by decide)]

/-- **When a client reads what `WriteResponse` sends**: the status code, the body, and nothing behind it. -/
theorem readFinal_writeResponse_iff (h : SendableResponse statusText resp) (method : List Char) (eof : Bool) :
    (∃ head, Rfc9112.readFinal method eof (writeResponse statusText resp) = some ((head, resp.body), []) ∧
      head.code = resp.statusCode) ↔ Deliverable method resp := by
  obtain ⟨head, hbytes, hcode, hlen, hnamed⟩ := writeResponse_eq_head h
  rw [hbytes, ← hcode]
  simp only [Rfc9112.readFinal_sized_iff hlen, hnamed]
  rw [hcode]
  constructor
  · rintro ⟨-, ⟨rfl, hfinal, hbodiless, hplain⟩, -⟩
    exact ⟨hfinal, hbodiless, hplain⟩
  · intro hd
    exact ⟨_, ⟨rfl, hd.final, hd.bodiless, hd.plain⟩, hcode⟩

end Responses

end ServiceProxy.Go
