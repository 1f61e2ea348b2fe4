import ServiceProxy.ProxyFraming
import ServiceProxy.Httparse
import ServiceProxy.Upstream.WriteResponse

/-!
# A proxy behind a proxy

What `write_request` sends of a request that `read_http11_request` has returned can be read by `read_http11_request` again.

* `WellParsed` — what `read_http11_request` can return (`wellParsed_of_ok`);
* `writeRequest_eq_block` — such a request is sent as a header block in CRLF lines and the body;
* `collect_sent` — what the header loop makes of the fields of that block.

`readHttp11Request_writeRequest`: **the round trip**, in any order of the header map and any segments.
-/

namespace ServiceProxy.ProxyHttp

open ServiceProxy.Lib ServiceProxy.Upstream
open ServiceProxy.Lib.Rfc9112 (Field isToken isFieldByte trimBlank isBlank valuesOf)

/-! ## What is returned -/

/-- A text that can be the value of a field, with nothing to trim. -/
structure IsValue (v : List Char) : Prop where
  valid : (utf8Encode v).all isFieldByte
  trimmed : trimBlank (utf8Encode v) = utf8Encode v

/-- A request as `read_http11_request` returns it. -/
structure WellParsed (req : Request) : Prop where
  started : Started req.method req.path
  host : IsValue req.host
  keys : (req.headers.map Prod.fst).Nodup
  values : ∀ k vs, (k, vs) ∈ req.headers → vs ≠ []
  fields : ∀ k vs, (k, vs) ∈ req.headers → ∀ v ∈ vs, k ≠ [] ∧ k.all isToken ∧ IsValue v

section Parsed

variable {v : List UInt8} {headers : List (List Char × List UInt8)} {httparse : List UInt8 → Parsed}

theorem trimBlank_eq_self : trimBlank v = v ↔ (∀ b ∈ v.head?, ¬ isBlank b) ∧ ∀ b ∈ v.getLast?, ¬ isBlank b :=
  dropWhile_rdropWhile_eq_self_iff

theorem isBlank_lt {b : UInt8} (h : isBlank b) : b.toNat < 128 := by
  simp only [isBlank, decide_eq_true_eq] at h
  rcases h with rfl | rfl <;> decide

theorem not_blank_replacement {b : UInt8} (h : b ∈ String.utf8EncodeChar '\uFFFD') : ¬ isBlank b := by
  have hbytes : String.utf8EncodeChar '\uFFFD' = [0xEF, 0xBF, 0xBD] := by decide
  rw [hbytes] at h
  simp only [List.mem_cons, List.not_mem_nil, or_false] at h
  rcases h with rfl | rfl | rfl <;> simp [isBlank]

theorem trimBlank_lossy (h : trimBlank v = v) : trimBlank (utf8Encode (fromUtf8Lossy v)) = utf8Encode (fromUtf8Lossy v) := by
  rw [trimBlank_eq_self] at h ⊢
  constructor
  · intro b hb hblank
    obtain ⟨bs, hbs⟩ := List.head?_eq_some_iff.1 hb
    obtain ⟨c, cs, hcs⟩ : ∃ c cs, fromUtf8Lossy v = c :: cs := by
      refine List.exists_cons_of_ne_nil fun hnil => ?_
      rw [hnil] at hbs
      cases hbs
    have hmem : b ∈ String.utf8EncodeChar c := by
      obtain ⟨d, ds, hd⟩ := List.exists_cons_of_length_pos (l := String.utf8EncodeChar c)
        (by rw [String.length_utf8EncodeChar]; exact c.utf8Size_pos)
      rw [hcs, utf8Encode_cons, hd, List.cons_append] at hbs
      rw [hd, (List.cons.inj hbs).1]
      simp
    rcases head_fromUtf8Lossy (c := c) (by rw [hcs]; rfl) with rfl | ⟨rest, rfl⟩
    · exact not_blank_replacement hmem hblank
    · rw [(utf8EncodeChar_of_mem (isBlank_lt hblank) hmem).1] at h
      exact h.1 b rfl hblank
  · intro b hb hblank
    obtain ⟨bs, hbs⟩ := List.getLast?_eq_some_iff.1 hb
    obtain ⟨cs, c, hcs⟩ : ∃ cs c, fromUtf8Lossy v = cs ++ [c] := by
      rcases List.eq_nil_or_concat' (fromUtf8Lossy v) with hnil | ⟨cs, c, hcs⟩
      · rw [hnil] at hbs
        simp at hbs
      · exact ⟨cs, c, hcs⟩
    have hmem : b ∈ String.utf8EncodeChar c := by
      rcases List.eq_nil_or_concat' (String.utf8EncodeChar c) with hnil | ⟨ds, d, hd⟩
      · have hpos := c.utf8Size_pos
        rw [← String.length_utf8EncodeChar, hnil] at hpos
        cases hpos
      · rw [hcs, utf8Encode_append, utf8Encode_cons, hd, utf8Encode_nil, List.append_nil, ← List.append_assoc] at hbs
        rw [hd, (List.append_inj' hbs rfl).2]
        simp
    rcases getLast_fromUtf8Lossy (c := c) (by rw [hcs]; simp) with rfl | ⟨front, rfl⟩
    · exact not_blank_replacement hmem hblank
    · rw [(utf8EncodeChar_of_mem (isBlank_lt hblank) hmem).1] at h
      exact h.2 b (by simp) hblank

theorem Returned.isValue {h : List Char × List UInt8} (hret : Returned h) : IsValue (fromUtf8Lossy h.2) where
  valid := isFieldByte_lossy hret.valid
  trimmed := trimBlank_lossy hret.trimmed

/-- **What `read_http11_request` returns.** -/
theorem wellParsed_collect (hspec : ∀ h ∈ headers, Returned h) {m p : List Char} (hstarted : Started m p)
    (body : List UInt8) : WellParsed ⟨m, p, (collect headers).host, (collect headers).headers, body⟩ := by
  have hheaders : (collect headers).headers = HeaderMap.pushAll [] (texts headers) := foldl_add_headers headers _
  refine ⟨hstarted, ?_, ?_, fun k vs hmem => ?_, fun k vs hmem v hv => ?_⟩
  · exact collect_host_of (P := IsValue) ⟨rfl, rfl⟩ fun h hh => (hspec h hh).isValue
  · simp only [hheaders]
    exact HeaderMap.nodup_pushAll List.nodup_nil
  · simp only [hheaders] at hmem
    exact (HeaderMap.mem_pushAll hmem).1
  · simp only [hheaders] at hmem
    obtain ⟨h, hh, heq⟩ := List.mem_map.1 ((HeaderMap.mem_pushAll hmem).2 v hv)
    obtain ⟨rfl, rfl⟩ := Prod.mk.inj heq
    exact ⟨(hspec h hh).name_ne, (hspec h hh).token, (hspec h hh).isValue⟩

theorem wellParsed_of_ok (hspec : Httparse httparse) {conn conn' : Stream UInt8} (hwf : ∀ seg ∈ conn.segs, seg ≠ [])
    {req : Request} (h : readHttp11Request httparse conn = .ok (req, conn')) : WellParsed req := by
  obtain ⟨k, headers, hblock, -⟩ := received_of_ok hwf h
  obtain ⟨buf, conn'', hread, htake, -⟩ := readHttp11Request_found httparse hwf hblock.ends hblock.fits
  obtain ⟨len, method, path, hparsed⟩ := hblock.parsed
  obtain ⟨⟨m, p, rfl, rfl, hstarted⟩, hreturned⟩ := hspec.sound _ _ _ _ _ hparsed
  rw [hread, parseRequest_complete (htake ▸ hparsed)] at h
  obtain ⟨⟨body, conn₃⟩, -, heq⟩ := bind_eq_ok.1 h
  obtain ⟨rfl, -⟩ := Prod.mk.inj (Except.ok.inj heq)
  exact wellParsed_collect hreturned hstarted _

end Parsed

/-! ## What is sent of it -/

/-- The header map the next proxy gets. -/
def passedHeaders (req : Request) : HeaderMap :=
  ("Host".toList, [req.host]) :: req.headers.filter (fun p => !skipsInRequest p.1) ++
    [("Content-Length".toList, [Nat.toDigits 10 req.body.length]), ("Connection".toList, ["keep-alive".toList])]

section Sent

variable {req : Request}

theorem copiedFields_eq (headers : HeaderMap) :
    copiedFields headers = HeaderMap.fields (headers.filter fun p => !skipsInRequest p.1) := by
  induction headers with
  | nil => rfl
  | cons p headers ih =>
    have hcons : copiedFields (p :: headers) =
        (if skipsInRequest p.1 then [] else p.2.map fun v => (p.1, v)) ++ copiedFields headers := rfl
    rw [hcons, ih]
    cases hskip : skipsInRequest p.1 with
    | true => simp [hskip]
    | false => simp [hskip, HeaderMap.fields]

theorem sentFields_eq (hhost : req.host ≠ []) : sentFields req = HeaderMap.fields (passedHeaders req) := by
  unfold sentFields passedHeaders
  rw [copiedFields_eq, if_neg (by simpa using hhost)]
  simp [HeaderMap.fields]

theorem mem_passedHeaders {k : List Char} {vs : List (List Char)} (h : (k, vs) ∈ passedHeaders req) :
    (k, vs) = ("Host".toList, [req.host]) ∨ (k, vs) ∈ req.headers ∧ skipsInRequest k = false ∨
      (k, vs) = ("Content-Length".toList, [Nat.toDigits 10 req.body.length]) ∨
      (k, vs) = ("Connection".toList, ["keep-alive".toList]) := by
  simp only [passedHeaders, List.cons_append, List.mem_cons, List.mem_append, List.mem_filter, List.not_mem_nil, or_false,
    Bool.not_eq_true'] at h
  exact h

theorem isValue_text {cs : List Char} (h : ∀ c ∈ cs, 33 ≤ c.toNat ∧ c.toNat < 127) : IsValue cs where
  valid := by
    refine List.all_eq_true.2 fun b hb => ?_
    obtain ⟨c, hc, hbc⟩ := List.mem_flatMap.1 hb
    exact isFieldByte_of_visible (h c hc) b hbc
  trimmed := by
    refine Rfc9112.trimBlank_encode fun c hc => ?_
    have := h c hc
    omega

theorem isValue_number (n : ℕ) : IsValue (Nat.toDigits 10 n) := by
  refine isValue_text fun c hc => ?_
  have := isDigit_toNat (Nat.isDigit_of_mem_toDigits (by decide) (by decide) hc)
  omega

theorem WellParsed.sent (h : WellParsed req) (hhost : req.host ≠ []) :
    ∀ p ∈ sentFields req, Sendable p.1 p.2 ∧ trimBlank (utf8Encode p.2) = utf8Encode p.2 := by
  have key : ∀ k v, k ≠ [] → k.all isToken → IsValue v →
      Sendable k v ∧ trimBlank (utf8Encode v) = utf8Encode v :=
    fun k v hne htoken hv => ⟨⟨hne, htoken, hv.valid⟩, hv.trimmed⟩
  intro p hp
  rw [sentFields_eq hhost] at hp
  obtain ⟨vs, hmem, hv⟩ := mem_fields.1 hp
  rcases mem_passedHeaders hmem with heq | ⟨hmem, -⟩ | heq | heq
  · obtain ⟨hk, rfl⟩ := Prod.mk.inj heq
    rw [List.mem_singleton.1 hv, hk]
    exact key _ _ (by simp) (by decide) h.host
  · obtain ⟨hne, htoken, hvalue⟩ := h.fields _ vs hmem _ hv
    exact key _ _ hne htoken hvalue
  · obtain ⟨hk, rfl⟩ := Prod.mk.inj heq
    rw [List.mem_singleton.1 hv, hk]
    exact key _ _ (by simp) (by decide) (isValue_number _)
  · obtain ⟨hk, rfl⟩ := Prod.mk.inj heq
    rw [List.mem_singleton.1 hv, hk]
    exact key _ _ (by simp) (by decide) (isValue_text (by simp))

/-- **`write_request` sends a header block in CRLF lines and the body.** -/
theorem writeRequest_eq_block (h : WellParsed req) (hhost : req.host ≠ []) :
    ∃ block : RequestBlock, writeRequest req = block.bytes ++ req.body ∧ block.method = req.method ∧
      block.path = req.path ∧ block.fields.length = (sentFields req).length ∧
      block.fields.map Field.received = (sentFields req).map fun p => (p.1, utf8Encode p.2) := by
  have hsent := h.sent hhost
  obtain ⟨fs, hbytes, hpairs⟩ := exists_fields fun p hp => (hsent p hp).1
  refine ⟨⟨req.method, req.path, fs, h.started⟩, ?_, rfl, rfl, ?_, ?_⟩
  · have hcrlf : Rfc9112.crlf = utf8Encode crlf := by decide
    have hversion : " HTTP/1.1".toList = ' ' :: "HTTP/1.1".toList := by decide
    have hspace : String.utf8EncodeChar ' ' = [32] := by decide
    have hfields : (fs.map Field.line).flatMap (· ++ utf8Encode crlf) =
        utf8Encode ((sentFields req).flatMap fun p => headerLine p.1 p.2) := by
      rw [← hbytes, ← hcrlf, List.flatMap_map]
      rfl
    simp only [writeRequest, requestHead_eq, RequestBlock.bytes, RequestBlock.lines, RequestBlock.line, List.flatMap_cons,
      hcrlf, hfields, hversion, utf8Encode_append, utf8Encode_cons, hspace, List.append_assoc, List.cons_append,
      List.nil_append]
  · have := congrArg List.length hpairs
    simpa using this
  · have hreceived : fs.map Field.received = (fs.map fun f => (f.name, f.value)).map fun p => (p.1, trimBlank p.2) := by
      rw [List.map_map]
      rfl
    rw [hreceived, hpairs, List.map_map]
    refine List.map_congr_left fun p hp => ?_
    simp only [Function.comp, (hsent p hp).2]

theorem nodup_passedHeaders (h : (req.headers.map Prod.fst).Nodup) : ((passedHeaders req).map Prod.fst).Nodup := by
  have hkept : ∀ k ∈ (req.headers.filter fun p => !skipsInRequest p.1).map Prod.fst, skipsInRequest k = false := by
    intro k hk
    obtain ⟨p, hp, rfl⟩ := List.mem_map.1 hk
    simpa using (List.mem_filter.1 hp).2
  have hadded : ∀ k ∈ ["Host".toList, "Content-Length".toList, "Connection".toList], skipsInRequest k = true := by decide
  have hnot : ∀ k ∈ ["Host".toList, "Content-Length".toList, "Connection".toList],
      k ∉ (req.headers.filter fun p => !skipsInRequest p.1).map Prod.fst := by
    intro k hk hmem
    have hfalse := hkept k hmem
    rw [hadded k hk] at hfalse
    cases hfalse
  have hfilter := h.sublist (List.filter_sublist (p := fun p => !skipsInRequest p.1).map Prod.fst)
  have hown : ["Content-Length".toList, "Connection".toList].Nodup := by decide
  simp only [passedHeaders, List.cons_append, List.map_cons, List.map_append, List.map_nil, List.nodup_cons,
    List.mem_append, not_or]
  refine ⟨⟨hnot _ (by simp), by decide⟩, List.nodup_append.2 ⟨hfilter, hown, fun a ha b hb hab => ?_⟩⟩
  subst hab
  exact hnot a (List.mem_cons_of_mem _ hb) ha

end Sent

/-! ## The round trip -/

/-- What is sent is within the limits of the reader: 64 field lines and 1 MiB of header block.  A `Vec` holds at most
`isize::MAX` bytes. -/
structure WithinLimits (req : Request) : Prop where
  lines : (sentFields req).length ≤ 64
  head : (utf8Encode (requestHead req)).length ≤ 1024 * 1024
  body : req.body.length < 2 ^ 63

section RoundTrip

variable {req : Request}

theorem valuesOf_sent (n : List Char) (ps : List (List Char × List Char)) :
    valuesOf n (ps.map fun p => (p.1, utf8Encode p.2)) =
      (ps.filter fun p => eqIgnoreAsciiCase p.1 n).map fun p => utf8Encode p.2 := by
  unfold valuesOf
  rw [List.filter_map, List.map_map]
  rfl

theorem texts_sent (ps : List (List Char × List Char)) : texts (ps.map fun p => (p.1, utf8Encode p.2)) = ps := by
  unfold texts
  rw [List.map_map]
  exact (List.map_congr_left fun p _ => by simp [fromUtf8Lossy_utf8Encode]).trans (List.map_id ps)

theorem filter_host (hhost : req.host ≠ []) :
    (sentFields req).filter (fun p => eqIgnoreAsciiCase p.1 "host".toList) = [("Host".toList, req.host)] := by
  have hcopied : (copiedFields req.headers).filter (fun p => eqIgnoreAsciiCase p.1 "host".toList) = [] := by
    rw [List.filter_eq_nil_iff]
    intro p hp hname
    obtain ⟨vs, -, -, hskip⟩ := mem_copiedFields.1 hp
    have hlower : toAsciiLowercase "host".toList = "host".toList := by decide
    simp only [eqIgnoreAsciiCase, hlower, decide_eq_true_eq] at hname
    exact hskip (by simp [skipsInRequest, hname])
  have hown : [("Content-Length".toList, Nat.toDigits 10 req.body.length), ("Connection".toList, "keep-alive".toList)].filter
      (fun p => eqIgnoreAsciiCase p.1 "host".toList) = [] := by
    have hlength : ¬ eqIgnoreAsciiCase "Content-Length".toList "host".toList := by decide
    have hconn : eqIgnoreAsciiCase "Connection".toList "host".toList = false := by decide
    rw [filter_two (by exact hconn)]
    exact if_neg hlength
  have hname : eqIgnoreAsciiCase "Host".toList "host".toList = true := by decide
  unfold sentFields
  rw [if_neg (by simpa using hhost), List.filter_append, List.filter_append, hcopied, hown,
    List.filter_cons_of_pos (by exact hname)]
  rfl

/-- **What the header loop makes of the fields that are sent.** -/
theorem collect_sent (h : WellParsed req) (hhost : req.host ≠ []) (hbody : req.body.length < 2 ^ 63) :
    collect ((sentFields req).map fun p => (p.1, utf8Encode p.2)) = ⟨passedHeaders req, req.host, req.body.length⟩ := by
  have hheaders : (collect ((sentFields req).map fun p => (p.1, utf8Encode p.2))).headers = passedHeaders req := by
    have hvalues : ∀ k vs, (k, vs) ∈ passedHeaders req → vs ≠ [] := by
      intro k vs hmem
      rcases mem_passedHeaders hmem with heq | ⟨hmem, -⟩ | heq | heq
      · rw [(Prod.mk.inj heq).2]
        simp
      · exact h.values k vs hmem
      · rw [(Prod.mk.inj heq).2]
        simp
      · rw [(Prod.mk.inj heq).2]
        simp
    rw [collect, foldl_add_headers, texts_sent, sentFields_eq hhost]
    exact HeaderMap.pushAll_fields _ (nodup_passedHeaders h.keys) hvalues
  have hname : (collect ((sentFields req).map fun p => (p.1, utf8Encode p.2))).host = req.host := by
    rw [collect_host, valuesOf_sent, filter_host hhost]
    exact fromUtf8Lossy_utf8Encode _
  have hlength : (collect ((sentFields req).map fun p => (p.1, utf8Encode p.2))).contentLength = req.body.length := by
    rw [collect_length, valuesOf_sent, filter_contentLength]
    change lengthIn (utf8Encode (Nat.toDigits 10 req.body.length)) = _
    rw [lengthIn_of_number? (Rfc9112.number?_toDigits _), if_pos (by omega)]
  cases hcollect : collect ((sentFields req).map fun p => (p.1, utf8Encode p.2)) with
  | mk headers host contentLength =>
    rw [hcollect] at hheaders hname hlength
    obtain rfl : headers = passedHeaders req := hheaders
    obtain rfl : host = req.host := hname
    obtain rfl : contentLength = req.body.length := hlength
    rfl

/-- **What is written is read back**, whatever comes after it. -/
theorem readHttp11Request_sent {httparse : List UInt8 → Parsed} (hspec : Httparse httparse) (h : WellParsed req)
    (hhost : req.host ≠ []) (hlimits : WithinLimits req) {conn : Stream UInt8} (hwf : ∀ seg ∈ conn.segs, seg ≠ [])
    {more : List UInt8} (hflat : conn.flat = writeRequest req ++ more) :
    ∃ conn', readHttp11Request httparse conn = .ok ({ req with headers := passedHeaders req }, conn') := by
  obtain ⟨block, hbytes, hmethod, hpath, hlength, hfields⟩ := writeRequest_eq_block h hhost
  have hhead : block.bytes.length ≤ 1024 * 1024 := by
    have hlen := congrArg List.length hbytes
    have := hlimits.head
    rw [writeRequest, List.length_append, List.length_append] at hlen
    omega
  rw [hbytes, List.append_assoc] at hflat
  have hends : findHeaderEnd conn.flat = some block.bytes.length := by rw [hflat, findHeaderEnd_block]
  have hpos := (findHeaderEnd_bounds hends).1
  have hfits : readStart 1024 block.bytes.length conn.segs < block.bytes.length := readStart_lt (by omega) conn.segs
  obtain ⟨buf, conn', hread, htake, hdrop, -, -, hwf'⟩ := readHttp11Request_found httparse hwf hends (by omega)
  have hparsed : httparse (buf.take block.bytes.length) = .complete block.bytes.length (some block.method)
      (some block.path) ((sentFields req).map fun p => (p.1, utf8Encode p.2)) := by
    rw [htake, hflat, List.take_left, hspec.accepts block (by rw [hlength]; exact hlimits.lines), hfields]
  rw [hflat, List.drop_left] at hdrop
  have henough : req.body.length ≤ (buf.drop block.bytes.length).length + conn'.flat.length := by
    rw [← List.length_append, hdrop, List.length_append]
    omega
  have hsmall := hlimits.body
  obtain ⟨body, conn'', hloop, hbody⟩ := bodyLoop_ok hwf' (.inr henough) (Nat.le_refl _) (by omega)
  rw [hdrop, List.take_left] at hbody
  refine ⟨conn'', ?_⟩
  rw [hread, parseRequest_complete hparsed, collect_sent h hhost hlimits.body, hloop, hmethod, hpath]
  simp only [bind, Except.bind, Option.getD_some, hbody]

end RoundTrip

/-- **The round trip of `read_http11_request` and `write_request`.**  Whatever request with a host `read_http11_request`
returns, in whatever order `write_request` enumerates its header map, and however its output arrives at the next proxy, with
whatever bytes behind it: `read_http11_request` returns the same method, path, host and body, and the map without
`Connection`, `Content-Length` and `Host` in any spelling, but with the three lines of `write_request`; every other key keeps
its values in order. -/
theorem readHttp11Request_writeRequest {httparse : List UInt8 → Parsed} (hspec : Httparse httparse)
    {conn conn' : Stream UInt8} (hconn : ∀ seg ∈ conn.segs, seg ≠ []) {req : Request}
    (hread : readHttp11Request httparse conn = .ok (req, conn')) (hhost : req.host ≠ []) {headers : HeaderMap}
    (hperm : headers.Perm req.headers) (hlimits : WithinLimits { req with headers }) {segs : List (List UInt8)}
    (hsegs : ∀ seg ∈ segs, seg ≠ []) {more : List UInt8} (hflat : segs.flatten = writeRequest { req with headers } ++ more)
    (e : Ending) :
    ∃ req' conn'', readHttp11Request httparse ⟨segs, e⟩ = .ok (req', conn'') ∧ req'.method = req.method ∧
      req'.path = req.path ∧ req'.host = req.host ∧ req'.body = req.body ∧
      req'.headers.Perm (req.headers.filter (fun p => !skipsInRequest p.1) ++
        [("Host".toList, [req.host]), ("Content-Length".toList, [Nat.toDigits 10 req.body.length]),
          ("Connection".toList, ["keep-alive".toList])]) := by
  have hwell := wellParsed_of_ok hspec hconn hread
  have hwell' : WellParsed { req with headers } :=
    ⟨hwell.started, hwell.host, (hperm.map Prod.fst).nodup_iff.2 hwell.keys,
      fun k vs hmem => hwell.values k vs (hperm.mem_iff.1 hmem), fun k vs hmem => hwell.fields k vs (hperm.mem_iff.1 hmem)⟩
  have hwf : ∀ seg ∈ (⟨segs, e⟩ : Stream UInt8).segs, seg ≠ [] := hsegs
  obtain ⟨conn'', hback⟩ := readHttp11Request_sent hspec hwell' hhost hlimits hwf hflat
  refine ⟨_, conn'', hback, rfl, rfl, rfl, rfl, ?_⟩
  -- the `Host` line is sent first
  have hsplit : ∀ own : HeaderMap, (("Host".toList, [req.host]) :: headers.filter (fun p => !skipsInRequest p.1) ++ own).Perm
      (headers.filter (fun p => !skipsInRequest p.1) ++ ("Host".toList, [req.host]) :: own) :=
    fun own => List.perm_middle.symm
  exact (hsplit _).trans ((hperm.filter _).append_right _)

/-- A request with an invalid byte in a value, a repeated name, and an empty line as its body. -/
def oddRequest : List UInt8 :=
  utf8Encode "POST /ä HTTP/1.1\r\nX: a\r\nhost: b\r\nX: ".toList ++ [0xFF] ++
    utf8Encode "\r\nContent-Length: 4\r\n\r\n\r\n\r\n".toList

theorem readHttp11Request_writeRequest_odd :
    ∃ req conn' req' conn'', readHttp11Request parseBlock ⟨[oddRequest], .eof⟩ = .ok (req, conn') ∧
      req.headers = [(['X'], [['a'], ['\uFFFD']]), ("host".toList, [['b']]), ("Content-Length".toList, [['4']])] ∧
      readHttp11Request parseBlock ⟨[writeRequest { req with headers := req.headers.reverse } ++ [7]], .open⟩ =
        .ok (req', conn'') ∧
      req'.method = req.method ∧ req'.path = req.path ∧ req'.host = req.host ∧ req'.body = [13, 10, 13, 10] := by
  have hodd : (readHttp11Request parseBlock ⟨[oddRequest], .eof⟩).map Prod.fst =
      .ok ⟨"POST".toList, "/ä".toList, ['b'],
        [(['X'], [['a'], ['\uFFFD']]), ("host".toList, [['b']]), ("Content-Length".toList, [['4']])],
        [13, 10, 13, 10]⟩ := by decide
  cases hread : readHttp11Request parseBlock ⟨[oddRequest], .eof⟩ with
  | error a =>
    rw [hread] at hodd
    cases hodd
  | ok p =>
    obtain ⟨req, conn'⟩ := p
    rw [hread] at hodd
    obtain rfl := Except.ok.inj hodd
    have hflat : ∀ req : Request, [writeRequest req ++ [7]].flatten = writeRequest req ++ [7] := by simp
    obtain ⟨req', conn'', hread', hmethod, hpath, hhost, hbody, -⟩ := readHttp11Request_writeRequest parseBlock_spec
      (by decide) hread (by decide) (List.reverse_perm _) ⟨by decide, by decide, by decide⟩ (by simp) (hflat _) .open
    exact ⟨_, conn', req', conn'', rfl, rfl, hread', hmethod, hpath, hhost, hbody⟩

end ServiceProxy.ProxyHttp
