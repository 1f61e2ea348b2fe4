import ServiceProxy.ProxyHttp
import ServiceProxy.Upstream.Sent

/-!
# Forwarding a client's request

What the upstream receives for a well-formed request of an HTTP/1.1 client: `read_http11_request` reads it, `write_request`
sends it on.  `httparse` is assumed to take a well-formed header block apart (`HttparseSpec`).

* `readLoop_head`, `bodyLoop_ok` — the two read loops, over every segmentation;
* `collect_length`, `sendable_collect` — what the header loop makes of the fields.

`forwarded_iff`: whatever the segments, a server that follows RFC 9112 receives exactly the client's request, if and only
if the request is `Forwardable`: not chunked, and within the limits of the reader.
-/

namespace ServiceProxy.ProxyHttp

open ServiceProxy.Lib ServiceProxy.Upstream
open ServiceProxy.Lib.Rfc9112 (Field RequestHead Message Content named soleLength isChunked trimBlank isFieldByte)

/-- What is assumed of `httparse`: it returns the method, the target, the names and the trimmed values of a well-formed
header block as they are written, and refuses more than 64 fields. -/
structure HttparseSpec (httparse : List UInt8 → Parsed) : Prop where
  accepts : ∀ h : RequestHead, h.fields.length ≤ 64 →
    httparse h.bytes = .complete h.bytes.length (some h.method) (some h.target) (h.fields.map Field.received)
  refuses : ∀ h : RequestHead, 64 < h.fields.length → ∃ msg, httparse h.bytes = .error msg

/-! ## The loop that reads the header block -/

theorem findHeaderEnd_head (h : RequestHead) (rest : List UInt8) :
    findHeaderEnd (h.bytes ++ rest) = some h.bytes.length := by
  have hlen := congrArg List.length (h.bytes_append [])
  rw [h.bytes_append, findHeaderEnd_lines (h.lines_ok (.inl rfl)) (by simp)]
  simp only [List.length_append, List.length_nil, show Rfc9112.crlf.length = 2 from rfl] at hlen
  rw [Option.some.injEq]
  omega

theorem findHeaderEnd_part {h : RequestHead} {p q rest : List UInt8} (hpq : p ++ q = h.bytes ++ rest)
    (hlen : p.length < h.bytes.length) : findHeaderEnd p = none := by
  cases hp : findHeaderEnd p with
  | none => rfl
  | some k =>
    have hfound := findHeaderEnd_append hp q
    rw [hpq, findHeaderEnd_head] at hfound
    have := (findHeaderEnd_bounds hp).2
    obtain rfl := Option.some.inj hfound
    omega

/-- The bytes that arrive on the connection, one by one under `T`. -/
def Arrives (T : Prop) (e : Ending) (conn : Stream UInt8) (bs : List UInt8) : Prop := Reads T e ⟨[], conn⟩ bs

theorem read_arrives {T : Prop} {e : Ending} {conn : Stream UInt8} {bs : List UInt8} {n : ℕ} (hn : 0 < n)
    (h : Arrives T e conn bs) (hbs : bs ≠ []) :
    ∃ b conn' bs', conn.read n = .ok (b, conn') ∧ b ≠ [] ∧ (T → b.length = 1) ∧ bs = b ++ bs' ∧ Arrives T e conn' bs' := by
  obtain ⟨hnil, -⟩ | ⟨b, conn', hread, -, hfill, -⟩ := read_spec hn h
  · exact absurd hnil hbs
  · exact ⟨b, conn', conn'.flat, hread, hfill.nonempty, fun hT => (hfill.tight hT).1, hfill.bytes.symm,
      hfill.reads fun _ => rfl⟩

/-- **The first loop ends at the empty line**, if the header block fits in the buffer. -/
theorem readLoop_head {httparse : List UInt8 → Parsed} {h : RequestHead} (hfit : h.bytes.length ≤ 1024 * 1024 + 1)
    {T : Prop} {e : Ending} (rest : List UInt8) :
    ∀ (turns : ℕ) (buf : List UInt8) (conn : Stream UInt8) (bs : List UInt8), Arrives T e conn bs →
      buf ++ bs = h.bytes ++ rest → buf.length < h.bytes.length → bs.length < turns →
      ∃ body conn' bs', readLoop httparse turns buf conn = parseRequest httparse (h.bytes ++ body) h.bytes.length conn' ∧
        body ++ bs' = rest ∧ (T → body = []) ∧ Arrives T e conn' bs' := by
  intro turns
  induction turns with
  | zero => intro buf conn bs _ _ _ hturns; omega
  | succ turns ih =>
    intro buf conn bs hbs hall hbuf hturns
    have hne : bs ≠ [] := by
      rintro rfl
      have := congrArg List.length hall
      simp only [List.append_nil, List.length_append] at this
      omega
    obtain ⟨b, conn', bs', hread, hb, hone, rfl, hbs'⟩ := read_arrives (by omega : 0 < 1024) hbs hne
    have hempty : b.isEmpty = false := by simpa using hb
    have hpos := List.length_pos_iff.2 hb
    rw [← List.append_assoc] at hall
    rw [readLoop, hread]
    simp only [Except.mapError, bind, Except.bind, hempty, Bool.false_eq_true, if_false]
    by_cases hlen : (buf ++ b).length < h.bytes.length
    · -- the header block is not complete yet, and not too long
      rw [findHeaderEnd_part hall hlen]
      simp only
      rw [if_neg (by omega)]
      refine ih (buf ++ b) conn' bs' hbs' hall hlen ?_
      simp only [List.length_append] at hturns
      omega
    · obtain ⟨body, hbody⟩ : h.bytes <+: buf ++ b :=
        List.prefix_of_prefix_length_le ⟨rest, rfl⟩ ⟨bs', hall⟩ (by omega)
      rw [← hbody, List.append_assoc] at hall
      rw [← hbody, findHeaderEnd_head]
      refine ⟨body, conn', bs', rfl, List.append_cancel_left hall, fun hT => ?_, hbs'⟩
      have := congrArg List.length hbody
      simp only [List.length_append, hone hT] at this
      exact List.length_eq_zero_iff.1 (by omega)

theorem readLoop_tooLong {httparse : List UInt8 → Parsed} {h : RequestHead} (hlong : 1024 * 1024 + 1 < h.bytes.length)
    (e : Ending) (rest : List UInt8) :
    ∀ (turns : ℕ) (buf bs : List UInt8), buf ++ bs = h.bytes ++ rest → buf.length ≤ 1024 * 1024 →
      ∀ r, readLoop httparse turns buf (.singles bs e) ≠ .ok r := by
  intro turns
  induction turns with
  | zero => intro buf bs _ _ r; simp [readLoop]
  | succ turns ih =>
    intro buf bs hall hbuf r
    cases bs with
    | nil =>
      have := congrArg List.length hall
      simp only [List.append_nil, List.length_append] at this
      omega
    | cons b bs =>
      have hread : (Stream.singles (b :: bs) e).read 1024 = .ok ([b], .singles bs e) := rfl
      have hall' : (buf ++ [b]) ++ bs = h.bytes ++ rest := by simpa using hall
      have hlen : (buf ++ [b]).length = buf.length + 1 := by simp
      rw [readLoop, hread]
      simp only [Except.mapError, bind, Except.bind, List.isEmpty_cons, Bool.false_eq_true, if_false]
      rw [findHeaderEnd_part hall' (by omega)]
      simp only
      split_ifs with hmax
      · simp
      · exact ih (buf ++ [b]) bs hall' (by omega) r

/-! ## The loop that reads the body -/

/-- **The second loop ends with the body, or with the stream.** -/
theorem bodyLoop_ok {contentLength turns : ℕ} {body : List UInt8} {conn : Stream UInt8}
    (hwf : ∀ seg ∈ conn.segs, seg ≠ [])
    (henough : conn.ending = .eof ∨ contentLength ≤ body.length + conn.flat.length)
    (hturns : contentLength - body.length ≤ turns) (hsmall : contentLength - body.length < 2 ^ 63) :
    ∃ body' conn', bodyLoop turns contentLength body conn = .ok (body', conn') ∧
      body'.take contentLength = (body ++ conn.flat).take contentLength := by
  induction turns generalizing body conn with
  | zero => exact ⟨body, conn, rfl, (List.take_append_of_le_length (by omega)).symm⟩
  | succ turns ih =>
    rw [bodyLoop]
    by_cases hlt : body.length < contentLength
    · rw [if_pos hlt, if_pos hsmall]
      obtain ⟨hnil, hread⟩ | ⟨b, conn', hread, ht⟩ := read_taken (by omega : 0 < contentLength - body.length) hwf
      · have hflat : conn.flat = [] := by rw [Stream.flat, hnil, List.flatten_nil]
        rw [hflat, List.length_nil] at henough
        rw [hread, henough.resolve_right (by omega)]
        exact ⟨body, conn, rfl, by rw [hflat, List.append_nil]⟩
      · have hempty : b.isEmpty = false := by simpa using ht.nonempty
        have hpos := List.length_pos_iff.2 ht.nonempty
        rw [ht.bytes, List.length_append] at henough
        rw [hread]
        simp only [Except.mapError, bind, Except.bind, hempty, Bool.false_eq_true, if_false]
        rw [ht.bytes, ← List.append_assoc]
        rw [← ht.ending, ← Nat.add_assoc, ← List.length_append] at henough
        exact ih ht.wf henough (by rw [List.length_append]; omega) (by rw [List.length_append]; omega)
    · rw [if_neg hlt]
      exact ⟨body, conn, rfl, (List.take_append_of_le_length (by omega)).symm⟩

/-! ## The header loop -/

/-- The names and the texts of the values that the header loop sees. -/
def textsOf (fs : List Field) : List (List Char × List Char) :=
  fs.map fun f => (f.name, fromUtf8Lossy (trimBlank f.value))

/-- The same, of the names and values that `httparse` returns. -/
def texts (headers : List (List Char × List UInt8)) : List (List Char × List Char) :=
  headers.map fun h => (h.1, fromUtf8Lossy h.2)

theorem foldl_add_headers (headers : List (List Char × List UInt8)) (c : Collected) :
    (headers.foldl Collected.add c).headers = c.headers.pushAll (texts headers) := by
  induction headers generalizing c with
  | nil => rfl
  | cons h headers ih => exact ih _

theorem collect_headers (fs : List Field) :
    (collect (fs.map Field.received)).headers = HeaderMap.pushAll [] (textsOf fs) := by
  have htexts : texts (fs.map Field.received) = textsOf fs := List.map_map
  rw [collect, foldl_add_headers, htexts]

/-- The length that `parse_request` reads from a value of `Content-Length`. -/
def lengthIn (value : List UInt8) : ℕ := (parseUnsigned (2 ^ 64) (fromUtf8Lossy value)).getD 0

/-- A variable that is set at every field with the name `n` keeps what the last of them says. -/
theorem foldl_add_last {γ : Type} {n : List Char} {get : Collected → γ} {value : List UInt8 → γ}
    (hadd : ∀ c h, get (c.add h) = if eqIgnoreAsciiCase h.1 n then value h.2 else get c)
    (headers : List (List Char × List UInt8)) (c : Collected) :
    get (headers.foldl Collected.add c) = ((Rfc9112.valuesOf n headers).getLast?.map value).getD (get c) := by
  induction headers generalizing c with
  | nil => rfl
  | cons h headers ih =>
    rw [List.foldl_cons, ih, hadd]
    by_cases hname : eqIgnoreAsciiCase h.1 n
    · rw [if_pos hname, Rfc9112.valuesOf_cons_of_pos hname, List.getLast?_cons]
      cases (Rfc9112.valuesOf n headers).getLast? <;> rfl
    · rw [if_neg hname, Rfc9112.valuesOf_cons_of_neg hname]

/-- **The last `Content-Length` counts.** -/
theorem collect_length (headers : List (List Char × List UInt8)) :
    (collect headers).contentLength =
      ((Rfc9112.valuesOf Rfc9112.contentLength headers).getLast?.map lengthIn).getD 0 :=
  foldl_add_last (fun _ _ => rfl) headers _

theorem collect_host (headers : List (List Char × List UInt8)) :
    (collect headers).host = ((Rfc9112.valuesOf "host".toList headers).getLast?.map fromUtf8Lossy).getD [] :=
  foldl_add_last (fun _ _ => rfl) headers _

theorem lengthIn_of_number? {value : List UInt8} {n : ℕ} (h : Rfc9112.number? value = some n) :
    lengthIn value = if n < 2 ^ 64 then n else 0 := by
  simp only [Rfc9112.number?, Option.bind_eq_some_iff, Option.ite_none_right_eq_some, Option.some.injEq] at h
  obtain ⟨ds, hds, ⟨hne, hdigits⟩, rfl⟩ := h
  rw [utf8Decode_eq_some] at hds
  rw [lengthIn, ← hds, fromUtf8Lossy_utf8Encode, parseUnsigned_digits _ hne (List.all_eq_true.1 hdigits)]
  split_ifs <;> rfl

theorem collect_length_of_nil {fs : List Field} (h : named Rfc9112.contentLength fs = []) :
    (collect (fs.map Field.received)).contentLength = 0 := by
  rw [collect_length, Rfc9112.valuesOf_received, h]
  rfl

theorem collect_length_of_sole {fs : List Field} {n : ℕ} (h : soleLength fs = some n) :
    (collect (fs.map Field.received)).contentLength = if n < 2 ^ 64 then n else 0 := by
  obtain ⟨g, hg, hn⟩ := Rfc9112.soleLength_eq_some.1 h
  rw [collect_length, Rfc9112.valuesOf_received, hg, ← lengthIn_of_number? hn, ← Rfc9112.trimBlank_of_number? hn]
  rfl

theorem isFieldByte_lossy {value : List UInt8} (h : value.all isFieldByte) :
    (utf8Encode (fromUtf8Lossy value)).all isFieldByte := by
  refine List.all_eq_true.2 fun b hb => ?_
  obtain ⟨c, hc, hbc⟩ := List.mem_flatMap.1 hb
  rcases mem_fromUtf8Lossy hc with rfl | hmem
  · have : ∀ b ∈ String.utf8EncodeChar '\uFFFD', isFieldByte b := List.all_eq_true.1 (by decide)
    exact this b hbc
  · exact List.all_eq_true.1 h b (hmem b hbc)

theorem isFieldByte_received (f : Field) : f.received.2.all isFieldByte :=
  List.all_eq_true.2 fun b hb => List.all_eq_true.1 f.valid b (Rfc9112.mem_of_mem_trimBlank hb)

theorem collect_host_of {P : List Char → Prop} {headers : List (List Char × List UInt8)} (hnil : P [])
    (h : ∀ p ∈ headers, P (fromUtf8Lossy p.2)) : P (collect headers).host := by
  rw [collect_host]
  cases hlast : (Rfc9112.valuesOf "host".toList headers).getLast? with
  | none => exact hnil
  | some v =>
    obtain ⟨p, hp, rfl⟩ := List.mem_map.1 (List.mem_of_getLast? hlast)
    exact h p (List.mem_of_mem_filter hp)

theorem sendable_collect (h : RequestHead) {hs : HeaderMap} (hperm : hs.Perm (collect (h.fields.map Field.received)).headers)
    (body : List UInt8) :
    SendableRequest ⟨h.method, h.target, (collect (h.fields.map Field.received)).host, hs, body⟩ where
  method_ne := h.method_ne
  path_ne := h.target_ne
  method := h.token
  path := h.visible
  host := by
    refine collect_host_of (P := fun cs => (utf8Encode cs).all isFieldByte) rfl fun p hp => ?_
    obtain ⟨f, -, rfl⟩ := List.mem_map.1 hp
    exact isFieldByte_lossy (isFieldByte_received f)
  headers := by
    intro k vs hmem v hv
    have hmem := hperm.mem_iff.1 hmem
    rw [collect_headers] at hmem
    obtain ⟨f, -, hf⟩ := List.mem_map.1 ((HeaderMap.mem_pushAll hmem).2 v hv)
    obtain ⟨rfl, rfl⟩ := Prod.mk.inj hf
    exact ⟨f.name_ne, f.token, isFieldByte_lossy (isFieldByte_received f)⟩

/-! ## The request that is forwarded -/

/-- The request is within what `read_http11_request` can read and `write_request` can send on. -/
def Forwardable (m : Message) : Prop :=
  m.head.fields.length ≤ 64 ∧ m.head.bytes.length ≤ 1024 * 1024 + 1 ∧
  match m.content with
  | .absent => True
  | .length body => body.length < 2 ^ 63
  | .chunked _ => False

/-- A server receives exactly the client's request, in whatever order the map enumerates its headers. -/
def Preserved (m : Message) (req : Request) : Prop :=
  ∀ hs : HeaderMap, hs.Perm req.headers →
    Rfc9112.readRequest (writeRequest { req with headers := hs }) =
      .complete ⟨m.head.method, m.head.target, m.content.body⟩ []

/-- The `Content-Length` the header loop finds in a message. -/
def lengthOf (m : Message) : ℕ := (collect (m.head.fields.map Field.received)).contentLength

theorem lengthOf_eq (m : Message) :
    lengthOf m = match m.content with
      | .length body => if body.length < 2 ^ 64 then body.length else 0
      | _ => 0 := by
  have hframed := m.framed
  cases hc : m.content with
  | absent =>
    rw [hc] at hframed
    exact collect_length_of_nil hframed.1
  | length body =>
    rw [hc] at hframed
    exact collect_length_of_sole hframed.2
  | chunked b =>
    rw [hc] at hframed
    exact collect_length_of_nil hframed.1

/-- The request that `parse_request` builds from a message, with this body. -/
def builtFrom (m : Message) (body : List UInt8) : Request :=
  { method := m.head.method
    path := m.head.target
    host := (collect (m.head.fields.map Field.received)).host
    headers := (collect (m.head.fields.map Field.received)).headers
    body }

/-- `parse_request` on a header block that `httparse` accepts. -/
theorem parseRequest_eq {httparse : List UInt8 → Parsed} (hspec : HttparseSpec httparse) {m : Message}
    (hfields : m.head.fields.length ≤ 64) (body : List UInt8) (conn : Stream UInt8) :
    parseRequest httparse (m.head.bytes ++ body) m.head.bytes.length conn =
      bodyLoop (lengthOf m - body.length) (lengthOf m) body conn >>= fun p =>
        .ok (builtFrom m (p.1.take (lengthOf m)), p.2) := by
  unfold parseRequest
  rw [List.take_left, hspec.accepts m.head hfields, List.drop_left]
  rfl

theorem transferEncoding_built (m : Message) {hs : HeaderMap} (body : List UInt8)
    (hperm : hs.Perm (builtFrom m body).headers) :
    named Rfc9112.transferEncoding m.head.fields = [] ↔
      ∀ k vs, (k, vs) ∈ hs → eqIgnoreAsciiCase k Rfc9112.transferEncoding → vs = [] := by
  have hmem : ∀ k vs, (k, vs) ∈ hs ↔ (k, vs) ∈ HeaderMap.pushAll [] (textsOf m.head.fields) := by
    intro k vs
    rw [← collect_headers]
    exact hperm.mem_iff
  constructor
  · intro hnil k vs hkv hk
    rw [hmem] at hkv
    by_contra hne
    obtain ⟨v, vs', rfl⟩ := List.exists_cons_of_ne_nil hne
    obtain ⟨f, hf, heq⟩ := List.mem_map.1 ((HeaderMap.mem_pushAll hkv).2 v (by simp))
    obtain ⟨rfl, -⟩ := Prod.mk.inj heq
    have : f ∈ named Rfc9112.transferEncoding m.head.fields := List.mem_filter.2 ⟨hf, hk⟩
    rw [hnil] at this
    cases this
  · intro hte
    rw [named, List.filter_eq_nil_iff]
    intro f hf hk
    obtain ⟨vs, hkv, hne⟩ : ∃ vs, (f.name, vs) ∈ HeaderMap.pushAll [] (textsOf m.head.fields) ∧ vs ≠ [] :=
      HeaderMap.exists_mem_pushAll (List.mem_map.2 ⟨f, hf, rfl⟩)
    exact hne (hte f.name vs ((hmem _ _).2 hkv) hk)

theorem readHttp11Request_head (httparse : List UInt8 → Parsed) {m : Message}
    (hfit : m.head.bytes.length ≤ 1024 * 1024 + 1) {T : Prop} {e : Ending} {conn : Stream UInt8}
    (h : Arrives T e conn m.bytes) :
    ∃ body conn' bs', readHttp11Request httparse conn =
        parseRequest httparse (m.head.bytes ++ body) m.head.bytes.length conn' ∧
      body ++ bs' = m.content.bytes ∧ (T → body = []) ∧ Arrives T e conn' bs' := by
  have hpos : 0 < m.head.bytes.length := by
    simp only [RequestHead.bytes, List.length_append, show Rfc9112.crlf.length = 2 from rfl]
    omega
  have hflat : conn.flat = m.bytes := h.bytes
  exact readLoop_head hfit m.content.bytes _ [] conn m.bytes h rfl hpos (by rw [hflat]; omega)

theorem preserved_built {m : Message} (hte : named Rfc9112.transferEncoding m.head.fields = []) :
    Preserved m (builtFrom m m.content.body) := by
  intro hs hperm
  exact readRequest_writeRequest (sendable_collect m.head hperm _) ((transferEncoding_built m _ hperm).1 hte)

theorem body_eq_nil_of_preserved {m : Message} (h : Preserved m (builtFrom m [])) :
    named Rfc9112.transferEncoding m.head.fields = [] ∧ m.content.body = [] := by
  have hperm : (builtFrom m []).headers.Perm (builtFrom m []).headers := .refl _
  have hread : Rfc9112.readRequest (writeRequest (builtFrom m [])) = _ := h _ hperm
  have hsend : SendableRequest (builtFrom m []) := sendable_collect m.head hperm []
  have hte : named Rfc9112.transferEncoding m.head.fields = [] := by
    by_contra hne
    obtain ⟨head, hbytes, -, -, -, hnamed⟩ := writeRequest_eq_head hsend
    have hne' : named Rfc9112.transferEncoding head.fields ≠ [] :=
      fun hnil => hne ((transferEncoding_built m [] hperm).2 (hnamed.1 hnil))
    rw [hbytes, show (builtFrom m []).body = [] from rfl, List.append_nil] at hread
    exact Rfc9112.readRequest_of_transferEncoding hne' _ _ hread
  refine ⟨hte, ?_⟩
  rw [readRequest_writeRequest hsend ((transferEncoding_built m [] hperm).1 hte)] at hread
  simp only [Rfc9112.Parse.complete.injEq, Rfc9112.Received.mk.injEq, and_true] at hread
  exact hread.2.2.symm

theorem preserved_of_no_length {m : Message} {conn conn' : Stream UInt8} {req : Request} (hzero : lengthOf m = 0)
    (hok : (bodyLoop (lengthOf m) (lengthOf m) [] conn >>= fun p =>
      .ok (builtFrom m (p.1.take (lengthOf m)), p.2)) = .ok (req, conn')) (hpres : Preserved m req) :
    Preserved m (builtFrom m []) := by
  rw [hzero] at hok
  obtain ⟨rfl, -⟩ : builtFrom m [] = req ∧ conn = conn' := by
    simpa [bodyLoop, bind, Except.bind] using hok
  exact hpres

/-- A body of which nothing has arrived with the header block, and that is preserved, is not chunked and has fewer than
`2 ^ 63` bytes. -/
theorem short_of_preserved {m : Message} {conn conn' : Stream UInt8} {req : Request}
    (hok : (bodyLoop (lengthOf m) (lengthOf m) [] conn >>= fun p =>
      .ok (builtFrom m (p.1.take (lengthOf m)), p.2)) = .ok (req, conn')) (hpres : Preserved m req) :
    match m.content with
    | .absent => True
    | .length body => body.length < 2 ^ 63
    | .chunked _ => False := by
  have hlen := lengthOf_eq m
  have hempty : lengthOf m = 0 → Preserved m (builtFrom m []) := fun hzero => preserved_of_no_length hzero hok hpres
  cases hc : m.content with
  | absent => trivial
  | length body =>
    rw [hc] at hlen
    by_contra hlong
    by_cases hlt : body.length < 2 ^ 64
    · -- `vec![0u8; n]` panics
      obtain ⟨n, hn⟩ : ∃ n, body.length = n + 1 := ⟨body.length - 1, by omega⟩
      simp only [hlt, if_true] at hlen
      rw [hlen, hn] at hok
      simp only [List.length_nil, Nat.sub_zero, bodyLoop, Nat.succ_pos, if_true] at hok
      rw [if_neg (by omega)] at hok
      cases hok
    · simp only [hlt, if_false] at hlen
      have hnil := (body_eq_nil_of_preserved (hempty hlen)).2
      rw [hc] at hnil
      obtain rfl : body = [] := hnil
      simp at hlt
  | chunked b =>
    rw [hc] at hlen
    have hnil := (body_eq_nil_of_preserved (hempty hlen)).1
    have hframed := m.framed
    rw [hc] at hframed
    simp [Rfc9112.FramedRequest, isChunked, hnil] at hframed

/-- What is preserved when it arrives byte by byte is forwardable. -/
theorem forwardable_of_singles {httparse : List UInt8 → Parsed} (hspec : HttparseSpec httparse) {m : Message} {e : Ending}
    {req : Request} {conn : Stream UInt8} (hok : readHttp11Request httparse (.singles m.bytes e) = .ok (req, conn))
    (hpres : Preserved m req) : Forwardable m := by
  have hfit : m.head.bytes.length ≤ 1024 * 1024 + 1 := by
    by_contra hlong
    exact readLoop_tooLong (by omega) e m.content.bytes _ [] m.bytes rfl (by simp) _ hok
  obtain ⟨body, conn', bs', hread, -, hnil, -⟩ := readHttp11Request_head httparse hfit (reads_singles m.bytes e)
  obtain rfl := hnil trivial
  rw [hread] at hok
  have hfields : m.head.fields.length ≤ 64 := by
    by_contra hmany
    obtain ⟨msg, hmsg⟩ := hspec.refuses m.head (by omega)
    simp [parseRequest, hmsg] at hok
  rw [parseRequest_eq hspec hfields] at hok
  exact ⟨hfields, hfit, short_of_preserved hok hpres⟩

theorem preserved_of_forwardable {httparse : List UInt8 → Parsed} (hspec : HttparseSpec httparse) {m : Message}
    {T : Prop} {e : Ending} {conn : Stream UInt8} (h : Forwardable m) (harrives : Arrives T e conn m.bytes) :
    ∃ req conn', readHttp11Request httparse conn = .ok (req, conn') ∧ Preserved m req := by
  obtain ⟨hfields, hfit, hcontent⟩ := h
  obtain ⟨body, conn', bs', hread, hbody, -, hconn'⟩ := readHttp11Request_head httparse hfit harrives
  rw [hread, parseRequest_eq hspec hfields]
  have hlen := lengthOf_eq m
  have hframed := m.framed
  have hpres : named Rfc9112.transferEncoding m.head.fields = [] → Preserved m (builtFrom m m.content.body) :=
    preserved_built
  cases hc : m.content with
  | absent =>
    rw [hc] at hlen hframed hbody hpres
    obtain ⟨rfl, rfl⟩ := List.append_eq_nil_iff.1 hbody
    rw [hlen]
    exact ⟨_, _, rfl, hpres hframed.2⟩
  | length b =>
    rw [hc] at hlen hframed hbody hcontent hpres
    simp only at hcontent hlen
    rw [if_pos (by omega)] at hlen
    have hall : body ++ conn'.flat = b := by
      rw [show conn'.flat = bs' from hconn'.bytes]
      exact hbody
    have henough : b.length ≤ body.length + conn'.flat.length := by rw [← List.length_append, hall]
    obtain ⟨body', conn'', hloop, htake⟩ := bodyLoop_ok hconn'.wf (.inr henough) le_rfl (by omega)
    rw [hall, List.take_length] at htake
    rw [hlen, hloop]
    exact ⟨builtFrom m b, conn'', by simp only [bind, Except.bind, htake], hpres hframed.1⟩
  | chunked b =>
    rw [hc] at hcontent
    exact hcontent.elim

/-- **Forwarding preserves exactly the forwardable requests.**  For every well-formed request, and however the connection
goes on after it: in whatever segments it arrives, `read_http11_request` builds a request for which `write_request` sends
the upstream exactly one complete request with the same method, target and decoded body, if and only if the request is
`Forwardable`. -/
theorem forwarded_iff {httparse : List UInt8 → Parsed} (hspec : HttparseSpec httparse) (m : Message) (e : Ending) :
    (∀ segs : List (List UInt8), (∀ seg ∈ segs, seg ≠ []) → segs.flatten = m.bytes →
      ∃ req conn, readHttp11Request httparse ⟨segs, e⟩ = .ok (req, conn) ∧ Preserved m req) ↔ Forwardable m := by
  constructor
  · intro h
    have hwf : ∀ seg ∈ (Stream.singles m.bytes e).segs, seg ≠ [] := (reads_singles m.bytes e).wf
    obtain ⟨req, conn, hok, hpres⟩ := h _ hwf (flat_singles m.bytes e)
    exact forwardable_of_singles hspec hok hpres
  · intro h segs hwf hflat
    have harrives : Arrives False e ⟨segs, e⟩ m.bytes := ⟨hflat, rfl, hwf, False.elim⟩
    exact preserved_of_forwardable hspec h harrives

/-! ## A parser that does what is assumed -/

/-- A parser of header blocks with room for 64 fields. -/
def parseHead (bs : List UInt8) : Parsed :=
  match Rfc9112.readLines (bs.length + 1) bs with
  | some (start :: lines, rest) =>
    match Rfc9112.parseRequestLine start, Rfc9112.parseFields lines with
    | some (method, target), some fs =>
      if fs.length ≤ 64 then .complete (bs.length - rest.length) (some method) (some target) fs
      else .error "too many headers".toList
    | _, _ => .error "invalid token".toList
  | _ => .incomplete

theorem parseHead_spec : HttparseSpec parseHead := by
  have hparse : ∀ h : RequestHead, parseHead h.bytes =
      if h.fields.length ≤ 64 then
        .complete h.bytes.length (some h.method) (some h.target) (h.fields.map Field.received)
      else .error "too many headers".toList := by
    intro h
    have hlines : Rfc9112.readLines (h.bytes.length + 1) h.bytes = some (h.line :: h.fields.map Field.line, []) := by
      have hbytes := h.bytes_append []
      rw [List.append_nil] at hbytes
      rw [hbytes]
      exact Rfc9112.readLines_append (h.lines_ok (.inr rfl)) (Rfc9112.length_lines_lt _ _) []
    simp only [parseHead, hlines, Rfc9112.parseRequestLine_line, Rfc9112.parseFields_lines, List.length_map,
      List.length_nil, Nat.sub_zero]
  constructor
  · intro h hle
    rw [hparse, if_pos hle]
  · intro h hlt
    exact ⟨_, by rw [hparse, if_neg (by omega)]⟩

/-- `Host: echo`. -/
def hostField : Field where
  name := "Host".toList
  before := [' ']
  value := utf8Encode "echo".toList
  after := []
  name_ne := by decide
  token := by decide
  ows := Rfc9112.isOws_space
  valid := by decide

/-- `GET /echo`. -/
def getEcho : Message where
  head :=
    { method := "GET".toList, target := "/echo".toList, fields := [hostField]
      method_ne := by decide, target_ne := by decide, token := by decide, visible := by decide }
  content := .absent
  framed := by unfold Rfc9112.FramedRequest; decide

theorem forwarded_getEcho :
    HttparseSpec parseHead ∧ Forwardable getEcho ∧
    ∀ segs : List (List UInt8), (∀ seg ∈ segs, seg ≠ []) → segs.flatten = getEcho.bytes →
      ∃ req conn, readHttp11Request parseHead ⟨segs, .open⟩ = .ok (req, conn) ∧ Preserved getEcho req := by
  have hforward : Forwardable getEcho := ⟨by decide, by decide, trivial⟩
  exact ⟨parseHead_spec, hforward, (forwarded_iff parseHead_spec getEcho .open).2 hforward⟩

/-- `POST /echo` with the body `hello` in one chunk. -/
def postChunked : Message where
  head :=
    { method := "POST".toList, target := "/echo".toList, fields := [hostField, Rfc9112.chunkedField]
      method_ne := by decide, target_ne := by decide, token := by decide, visible := by decide }
  content := .chunked Rfc9112.helloChunk
  framed := by unfold Rfc9112.FramedRequest; decide

/-- **The counter-example.**  A client sends its body in chunks: `parse_request` finds no `Content-Length` and drops them,
`write_request` passes `Transfer-Encoding: chunked` on, and the upstream waits for chunks that never come. -/
theorem chunked_request_incomplete :
    ¬ ∀ (httparse : List UInt8 → Parsed), HttparseSpec httparse → ∀ (m : Message) (e : Ending) (segs : List (List UInt8)),
      (∀ seg ∈ segs, seg ≠ []) → segs.flatten = m.bytes →
      ∃ req conn, readHttp11Request httparse ⟨segs, e⟩ = .ok (req, conn) ∧ Preserved m req := by
  intro h
  obtain ⟨req, conn, hread, hpres⟩ := h parseHead parseHead_spec postChunked .open [postChunked.bytes] (by decide) (by simp)
  have hincomplete : (readHttp11Request parseHead ⟨[postChunked.bytes], .open⟩).map
      (fun p => Rfc9112.readRequest (writeRequest p.1)) = .ok .incomplete := by decide
  have hcomplete := hpres req.headers (.refl _)
  rw [hread] at hincomplete
  simp only [Except.map, Except.ok.injEq] at hincomplete
  rw [hincomplete] at hcomplete
  cases hcomplete

end ServiceProxy.ProxyHttp
