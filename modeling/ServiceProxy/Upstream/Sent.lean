import ServiceProxy.Upstream.Dial
import ServiceProxy.Lib.Rfc9112Read

/-!
# What `write_request` sends

`write_request` sends a request line, the field lines `sentFields` and the body.  If the texts of the request can stand on
a line (`SendableRequest`), these bytes are a well-formed head and the body (`writeRequest_eq_head`); its one
`Content-Length` line is the length of the body, and it has a `Transfer-Encoding` line exactly if the request has one.
-/

namespace ServiceProxy.Upstream

open ServiceProxy.Lib
open ServiceProxy.Lib.Rfc9112 (Field RequestHead named soleLength isToken isVisible isFieldByte)

/-! ## The field lines -/

/-- The fields that `write_request` copies from the map. -/
def copiedFields (headers : HeaderMap) : List (List Char × List Char) :=
  headers.flatMap fun (k, values) => if skipsInRequest k then [] else values.map fun v => (k, v)

def sentFields (req : Request) : List (List Char × List Char) :=
  (if req.host.isEmpty then [] else [("Host".toList, req.host)]) ++ copiedFields req.headers ++
    [("Content-Length".toList, Nat.toDigits 10 req.body.length), ("Connection".toList, "keep-alive".toList)]

theorem copiedLines_eq (headers : HeaderMap) :
    copiedLines headers = (copiedFields headers).flatMap fun p => headerLine p.1 p.2 := by
  induction headers with
  | nil => rfl
  | cons p headers ih =>
    obtain ⟨k, values⟩ := p
    simp only [copiedLines, copiedFields, List.flatMap_cons, List.flatMap_append] at ih ⊢
    rw [ih]
    congr 1
    split_ifs
    · rfl
    · rw [List.flatMap_map]

theorem requestHead_eq (req : Request) :
    requestHead req = req.method ++ ' ' :: req.path ++ " HTTP/1.1".toList ++ crlf ++
      (sentFields req).flatMap (fun p => headerLine p.1 p.2) ++ crlf := by
  have h1 : " HTTP/1.1\r\n".toList = " HTTP/1.1".toList ++ crlf := by decide
  have h2 : "\r\nConnection: keep-alive\r\n\r\n".toList =
      crlf ++ headerLine "Connection".toList "keep-alive".toList ++ crlf := by decide
  have h3 : "Content-Length: ".toList = "Content-Length".toList ++ ": ".toList := by decide
  have h4 : (if req.host.isEmpty then [] else headerLine "Host".toList req.host) =
      (if req.host.isEmpty then [] else [("Host".toList, req.host)]).flatMap fun p => headerLine p.1 p.2 := by
    split_ifs <;> simp
  unfold requestHead sentFields
  rw [h1, h2, h3, h4, copiedLines_eq]
  simp only [List.flatMap_append, List.flatMap_cons, List.flatMap_nil, headerLine, List.append_assoc, List.append_nil,
    List.cons_append, List.nil_append]

/-! ## Lines that can be sent -/

/-- The name and the value can stand on a field line. -/
structure Sendable (k v : List Char) : Prop where
  name_ne : k ≠ []
  token : k.all isToken
  valid : (utf8Encode v).all isFieldByte

def Sendable.field {k v : List Char} (h : Sendable k v) : Field where
  name := k
  before := [' ']
  value := utf8Encode v
  after := []
  name_ne := h.name_ne
  token := h.token
  ows := Rfc9112.isOws_space
  valid := h.valid

theorem Sendable.bytes_field {k v : List Char} (h : Sendable k v) : h.field.bytes = utf8Encode (headerLine k v) := by
  have hcrlf : Rfc9112.crlf = utf8Encode crlf := by decide
  have hcolon : ": ".toList = [':', ' '] := by decide
  simp [Field.bytes, Field.line, Sendable.field, headerLine, hcrlf, hcolon]

theorem isFieldByte_of_visible {c : Char} (h : 33 ≤ c.toNat ∧ c.toNat < 127) :
    ∀ b ∈ String.utf8EncodeChar c, isFieldByte b := by
  intro b hb
  rw [utf8EncodeChar_ascii (by omega)] at hb
  obtain rfl : b = UInt8.ofNat c.toNat := by simpa using hb
  have hnat : (UInt8.ofNat c.toNat).toNat = c.toNat := by
    simp only [UInt8.toNat_ofNat']
    omega
  simp only [isFieldByte, decide_eq_true_eq, hnat]
  refine .inr ⟨by omega, fun h127 => ?_⟩
  have := congrArg UInt8.toNat h127
  rw [hnat, show (127 : UInt8).toNat = 127 from rfl] at this
  omega

theorem sendable_number (k : List Char) (n : ℕ) (hne : k ≠ []) (hk : k.all isToken) :
    Sendable k (Nat.toDigits 10 n) := by
  refine ⟨hne, hk, List.all_eq_true.2 fun b hb => ?_⟩
  obtain ⟨c, hc, hbc⟩ := List.mem_flatMap.1 hb
  have := isDigit_toNat (Nat.isDigit_of_mem_toDigits (by decide) (by decide) hc)
  exact isFieldByte_of_visible (by omega) b hbc

theorem exists_fields {ps : List (List Char × List Char)} (h : ∀ p ∈ ps, Sendable p.1 p.2) :
    ∃ fs : List Field, fs.flatMap Field.bytes = utf8Encode (ps.flatMap fun p => headerLine p.1 p.2) ∧
      fs.map (fun f => (f.name, f.value)) = ps.map fun p => (p.1, utf8Encode p.2) := by
  induction ps with
  | nil => exact ⟨[], rfl, rfl⟩
  | cons p ps ih =>
    obtain ⟨fs, hbytes, hpairs⟩ := ih fun q hq => h q (List.mem_cons_of_mem _ hq)
    have hp := h p (by simp)
    refine ⟨hp.field :: fs, ?_, ?_⟩
    · rw [List.flatMap_cons, List.flatMap_cons, utf8Encode_append, hp.bytes_field, hbytes]
    · rw [List.map_cons, List.map_cons, hpairs]
      rfl

theorem map_named (n : List Char) (fs : List Field) :
    (named n fs).map (fun f => (f.name, f.value)) =
      (fs.map fun f => (f.name, f.value)).filter fun p => eqIgnoreAsciiCase p.1 n := by
  rw [List.filter_map]
  rfl

/-- The texts of the request can stand on the lines of a head. -/
structure SendableRequest (req : Request) : Prop where
  method_ne : req.method ≠ []
  path_ne : req.path ≠ []
  method : req.method.all isToken
  path : req.path.all isVisible
  host : (utf8Encode req.host).all isFieldByte
  headers : ∀ k vs, (k, vs) ∈ req.headers → ∀ v ∈ vs, Sendable k v

theorem mem_copiedFields {headers : HeaderMap} {p : List Char × List Char} :
    p ∈ copiedFields headers ↔ ∃ vs, (p.1, vs) ∈ headers ∧ p.2 ∈ vs ∧ ¬ skipsInRequest p.1 := by
  obtain ⟨k, v⟩ := p
  simp only [copiedFields, List.mem_flatMap, Prod.exists]
  constructor
  · rintro ⟨k', vs, hmem, h⟩
    split_ifs at h with hskip
    · cases h
    · obtain ⟨w, hw, heq⟩ := List.mem_map.1 h
      obtain ⟨rfl, rfl⟩ := Prod.mk.inj heq
      exact ⟨vs, hmem, hw, hskip⟩
  · rintro ⟨vs, hmem, hv, hskip⟩
    exact ⟨k, vs, hmem, by rw [if_neg hskip]; exact List.mem_map.2 ⟨v, hv, rfl⟩⟩

theorem SendableRequest.sendable {req : Request} (h : SendableRequest req) : ∀ p ∈ sentFields req, Sendable p.1 p.2 := by
  intro p hp
  simp only [sentFields, List.mem_append, List.mem_cons, List.not_mem_nil, or_false] at hp
  rcases hp with (hp | hp) | rfl | rfl
  · split_ifs at hp
    · cases hp
    · rw [List.mem_singleton] at hp
      subst hp
      exact show Sendable "Host".toList req.host from ⟨by decide, by decide, h.host⟩
  · obtain ⟨vs, hmem, hv, -⟩ := mem_copiedFields.1 hp
    exact h.headers _ vs hmem _ hv
  · exact sendable_number "Content-Length".toList _ (by decide) (by decide)
  · exact show Sendable "Connection".toList "keep-alive".toList from ⟨by decide, by decide, by decide⟩

/-! ## The head that is sent -/

theorem eqIgnoreAsciiCase_contentLength {k : List Char} (h : ¬ skipsInRequest k) :
    ¬ eqIgnoreAsciiCase k Rfc9112.contentLength := by
  have hlower : toAsciiLowercase Rfc9112.contentLength = "content-length".toList := by decide
  simp only [skipsInRequest, decide_eq_true_eq, not_or] at h
  simp only [eqIgnoreAsciiCase, hlower, decide_eq_true_eq]
  exact h.2.1

theorem filter_one {α : Type} {p : α → Bool} {a : α} (ha : p a = false) : [a].filter p = [] :=
  List.filter_cons_of_neg (by simp [ha])

theorem filter_two {α : Type} {p : α → Bool} {a b : α} (hb : p b = false) :
    [a, b].filter p = if p a then [a] else [] := by
  rw [List.filter_cons, filter_one hb]

theorem filter_sentFields (req : Request) {n : List Char} (hhost : eqIgnoreAsciiCase "Host".toList n = false)
    (hconn : eqIgnoreAsciiCase "Connection".toList n = false) :
    (sentFields req).filter (fun p => eqIgnoreAsciiCase p.1 n) =
      (copiedFields req.headers).filter (fun p => eqIgnoreAsciiCase p.1 n) ++
        if eqIgnoreAsciiCase "Content-Length".toList n then
          [("Content-Length".toList, Nat.toDigits 10 req.body.length)] else [] := by
  have hnil : (if req.host.isEmpty then [] else [("Host".toList, req.host)]).filter
      (fun p => eqIgnoreAsciiCase p.1 n) = [] := by
    split_ifs
    · rfl
    · exact filter_one hhost
  unfold sentFields
  rw [List.filter_append, List.filter_append, hnil, List.nil_append]
  exact congrArg _ (filter_two (b := ("Connection".toList, "keep-alive".toList)) hconn)

theorem filter_contentLength (req : Request) :
    (sentFields req).filter (fun p => eqIgnoreAsciiCase p.1 Rfc9112.contentLength) =
      [("Content-Length".toList, Nat.toDigits 10 req.body.length)] := by
  have hcopied : (copiedFields req.headers).filter (fun p => eqIgnoreAsciiCase p.1 Rfc9112.contentLength) = [] := by
    rw [List.filter_eq_nil_iff]
    intro p hp
    obtain ⟨vs, -, -, hskip⟩ := mem_copiedFields.1 hp
    exact eqIgnoreAsciiCase_contentLength hskip
  rw [filter_sentFields req (by decide) (by decide), hcopied, if_pos (by decide)]
  rfl

theorem filter_transferEncoding (req : Request) :
    (sentFields req).filter (fun p => eqIgnoreAsciiCase p.1 Rfc9112.transferEncoding) =
      (copiedFields req.headers).filter fun p => eqIgnoreAsciiCase p.1 Rfc9112.transferEncoding := by
  rw [filter_sentFields req (by decide) (by decide), if_neg (by decide), List.append_nil]

/-- **`write_request` sends a well-formed head and the body.** -/
theorem writeRequest_eq_head {req : Request} (h : SendableRequest req) :
    ∃ head : RequestHead, writeRequest req = head.bytes ++ req.body ∧ head.method = req.method ∧
      head.target = req.path ∧ soleLength head.fields = some req.body.length ∧
      (named Rfc9112.transferEncoding head.fields = [] ↔
        ∀ k vs, (k, vs) ∈ req.headers → eqIgnoreAsciiCase k Rfc9112.transferEncoding → vs = []) := by
  obtain ⟨fs, hbytes, hpairs⟩ := exists_fields h.sendable
  have hnamed : ∀ n, (named n fs).map (fun f => (f.name, f.value)) =
      ((sentFields req).filter fun p => eqIgnoreAsciiCase p.1 n).map fun p => (p.1, utf8Encode p.2) := by
    intro n
    rw [map_named, hpairs, List.filter_map]
    rfl
  refine ⟨⟨req.method, req.path, fs, h.method_ne, h.path_ne, h.method, h.path⟩, ?_, rfl, rfl, ?_, ?_⟩
  · have hcrlf : Rfc9112.crlf = utf8Encode crlf := by decide
    simp only [writeRequest, requestHead_eq, RequestHead.bytes, RequestHead.line, hbytes, hcrlf, ← utf8Encode_append]
  · -- the one line that `write_request` writes itself
    have hone := hnamed Rfc9112.contentLength
    rw [filter_contentLength] at hone
    obtain ⟨f, hf, hpair⟩ : ∃ f, named Rfc9112.contentLength fs = [f] ∧
        (f.name, f.value) = ("Content-Length".toList, utf8Encode (Nat.toDigits 10 req.body.length)) := by
      cases hlist : named Rfc9112.contentLength fs with
      | nil => simp [hlist] at hone
      | cons f fs' =>
        rw [hlist] at hone
        obtain ⟨hpair, hnil⟩ := List.cons.inj hone
        obtain rfl : fs' = [] := List.map_eq_nil_iff.1 hnil
        exact ⟨f, rfl, hpair⟩
    rw [Rfc9112.soleLength_eq_some]
    exact ⟨f, hf, by rw [(Prod.mk.inj hpair).2, Rfc9112.number?_toDigits]⟩
  · have hnil : named Rfc9112.transferEncoding fs = [] ↔
        (copiedFields req.headers).filter (fun p => eqIgnoreAsciiCase p.1 Rfc9112.transferEncoding) = [] := by
      rw [← List.map_eq_nil_iff (f := fun f : Field => (f.name, f.value)), hnamed, filter_transferEncoding,
        List.map_eq_nil_iff]
    simp only [hnil, List.filter_eq_nil_iff]
    constructor
    · intro hte k vs hmem hk
      by_contra hne
      obtain ⟨v, vs', rfl⟩ := List.exists_cons_of_ne_nil hne
      have hskip : ¬ skipsInRequest k := by
        have hlower : toAsciiLowercase k = "transfer-encoding".toList := by
          simpa [eqIgnoreAsciiCase, show toAsciiLowercase Rfc9112.transferEncoding = "transfer-encoding".toList by decide]
            using hk
        simp only [skipsInRequest, hlower]
        decide
      exact hte (k, v) (mem_copiedFields.2 ⟨_, hmem, by simp, hskip⟩) hk
    · intro hte p hp hk
      obtain ⟨vs, hmem, hv, -⟩ := mem_copiedFields.1 hp
      rw [hte _ vs hmem hk] at hv
      cases hv

/-- **A server reads back what `write_request` sends**, if the request has no `Transfer-Encoding`. -/
theorem readRequest_writeRequest {req : Request} (h : SendableRequest req)
    (hte : ∀ k vs, (k, vs) ∈ req.headers → eqIgnoreAsciiCase k Rfc9112.transferEncoding → vs = []) :
    Rfc9112.readRequest (writeRequest req) = .complete ⟨req.method, req.path, req.body⟩ [] := by
  obtain ⟨head, hbytes, hmethod, htarget, hlen, hnamed⟩ := writeRequest_eq_head h
  rw [hbytes, Rfc9112.readRequest_head, Rfc9112.framing_of_soleLength (hnamed.2 hte) hlen]
  simp [Rfc9112.readFramed, Rfc9112.Parse.map, hmethod, htarget]

end ServiceProxy.Upstream
