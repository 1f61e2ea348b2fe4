import ServiceProxy.HandleConn

/-!
# The handler of HTTP/2 requests (`handle_hyper_request`)

`handle_hyper_request` forwards a request and hands the answer to the response builder of the `http` crate.  The builder keeps
the first error it meets; `hyper_from_upstream` unwraps its result.  What the builder accepts is a parameter (`HttpCrate`),
with what is documented of it (`Documented`).  The limits of the crate are left out of that: it also refuses a name of more than
65535 bytes and a map of more than 24576 names.

* `hyperFromUpstream_eq` — when the builder has no error;
* `Answers` — the handler answers with the upstream's response, or with 502 where there is none;
* `Presentable` — the upstream's bytes: neither a length that cannot be allocated nor a response the builder refuses.

`hyper_answers_iff`: the handler answers if and only if the upstream's bytes are `Presentable`; on any others it panics.
-/

namespace ServiceProxy.ProxyHttp

open ServiceProxy.Lib ServiceProxy.Upstream
open ServiceProxy.Lib.Rfc9112 (isToken isFieldByte)

/-! ## The code -/

/-- What the `http` crate accepts: `StatusCode::try_from`, `HeaderName::try_from` and `HeaderValue::try_from`. -/
structure HttpCrate where
  status : ℕ → Bool
  name : List Char → Bool
  value : List Char → Bool

/-- What is documented of it: status codes from 100 to 999, names that are tokens, and values without control characters but
the tab. -/
structure HttpCrate.Documented (http : HttpCrate) : Prop where
  status : ∀ code, http.status code ↔ 100 ≤ code ∧ code ≤ 999
  name : ∀ k, http.name k ↔ k ≠ [] ∧ k.all isToken
  value : ∀ v, http.value v ↔ (utf8Encode v).all isFieldByte

/-- `hyper::Response`.  A `HeaderName` is in small letters. -/
structure HyperResponse where
  status : ℕ
  headers : List (List Char × List Char)
  body : List UInt8
  deriving DecidableEq, Repr

/-- `http::response::Builder`: the status and the headers so far, or an error. -/
abbrev Builder := Option (ℕ × List (List Char × List Char))

/-- `Builder::status`. -/
def Builder.status (b : Builder) (http : HttpCrate) (code : ℕ) : Builder :=
  b.bind fun p => if http.status code then some (code, p.2) else none

/-- `Builder::header`. -/
def Builder.header (b : Builder) (http : HttpCrate) (h : List Char × List Char) : Builder :=
  b.bind fun p =>
    if http.name h.1 ∧ http.value h.2 then some (p.1, p.2 ++ [(toAsciiLowercase h.1, h.2)]) else none

/-- `hyper_from_upstream`.  `none`: `unwrap` panics. -/
def hyperFromUpstream (http : HttpCrate) (resp : Response) : Option HyperResponse :=
  let builder : Builder := some (200, [])
  let builder := builder.status http resp.statusCode
  let builder := resp.headers.foldl (fun builder (k, values) =>
    if skipsInResponse k then builder else values.foldl (fun builder v => builder.header http (k, v)) builder) builder
  builder.map fun p => { status := p.1, headers := p.2, body := resp.body }

/-- The answer of the handler where there is no other. -/
def errorResponse (status : ℕ) (text : String) : HyperResponse :=
  { status, headers := [], body := utf8Encode text.toList }

/-- What hyper hands to the handler; `body` is what becomes of `collect`. -/
structure HyperRequest where
  method : List Char
  path : List Char
  headers : List (List Char × List UInt8)
  body : Option (List UInt8)

inductive HyperOutcome
  | responded (r : HyperResponse) | waiting | panicked
  deriving DecidableEq, Repr

/-- The request that is forwarded. -/
def upstreamRequest (addr : String) (req : HyperRequest) (body : List UInt8) : Request :=
  { method := req.method, path := req.path, host := addr.toList, headers := (collect req.headers).headers, body }

/-- `handle_hyper_request`.  The selector returns `addr`. -/
def handleHyperRequest (http : HttpCrate) (kind : ForwarderKind) (addr : String) (peer : Peer) (req : HyperRequest) :
    HyperOutcome :=
  match req.body with
  | none => .responded (errorResponse 400 "failed to read body")
  | some body =>
    match (kind.forward addr (upstreamRequest addr req body) peer).2 with
    | .ok resp =>
      match hyperFromUpstream http resp with
      | some r => .responded r
      | none => .panicked
    | .error (.err _) => .responded (errorResponse 502 "bad gateway")
    | .error .pending => .waiting
    | .error .panic => .panicked

/-! ## The builder -/

def handedFields (m : HeaderMap) : List (List Char × List Char) := HeaderMap.fields (m.filter fun p => !skipsInResponse p.1)

def builtResponse (resp : Response) : HyperResponse :=
  { status := resp.statusCode, body := resp.body
    headers := (handedFields resp.headers).map fun p => (toAsciiLowercase p.1, p.2) }

section Build

variable {http : HttpCrate} {resp : Response}

theorem foldl_header_none (ps : List (List Char × List Char)) :
    ps.foldl (fun b p => Builder.header b http p) none = none := by
  induction ps with
  | nil => rfl
  | cons p ps ih => exact ih

theorem foldl_header (ps : List (List Char × List Char)) (code : ℕ) (hs : List (List Char × List Char)) :
    ps.foldl (fun b p => Builder.header b http p) (some (code, hs)) =
      if ∀ p ∈ ps, http.name p.1 ∧ http.value p.2 then
        some (code, hs ++ ps.map fun p => (toAsciiLowercase p.1, p.2))
      else none := by
  induction ps generalizing hs with
  | nil => simp
  | cons p ps ih =>
    rw [List.foldl_cons, Builder.header, Option.bind_some]
    by_cases hp : http.name p.1 ∧ http.value p.2
    · rw [if_pos hp, ih]
      simp only [List.mem_cons, forall_eq_or_imp, hp, true_and, List.map_cons, List.append_assoc, List.singleton_append]
    · rw [if_neg hp, foldl_header_none, if_neg fun hall => hp (hall p List.mem_cons_self)]

theorem foldl_entries (m : HeaderMap) (b : Builder) :
    m.foldl (fun builder (k, values) =>
      if skipsInResponse k then builder else values.foldl (fun builder v => builder.header http (k, v)) builder) b =
      (handedFields m).foldl (fun b p => Builder.header b http p) b := by
  induction m generalizing b with
  | nil => rfl
  | cons p m ih =>
    obtain ⟨k, values⟩ := p
    rw [List.foldl_cons, ih]
    cases hk : skipsInResponse k with
    | true => simp [handedFields, hk]
    | false => simp [handedFields, hk, HeaderMap.fields, List.foldl_map]

/-- **When the builder has no error.** -/
theorem hyperFromUpstream_eq (http : HttpCrate) (resp : Response) :
    hyperFromUpstream http resp =
      if http.status resp.statusCode ∧ ∀ p ∈ handedFields resp.headers, http.name p.1 ∧ http.value p.2 then
        some (builtResponse resp)
      else none := by
  unfold hyperFromUpstream
  simp only [foldl_entries, Builder.status, Option.bind_some]
  by_cases hstatus : http.status resp.statusCode
  · rw [if_pos hstatus, foldl_header]
    by_cases hfields : ∀ p ∈ handedFields resp.headers, http.name p.1 ∧ http.value p.2
    · rw [if_pos hfields, if_pos ⟨hstatus, hfields⟩]
      rfl
    · rw [if_neg hfields, if_neg fun h => hfields h.2]
      rfl
  · rw [if_neg hstatus, foldl_header_none, if_neg fun h => hstatus h.1]
    rfl

end Build

/-! ## The handler -/

/-- **The handler answers**: with the upstream's response, or with 502 where `read_response` returns an error.  It waits while
the upstream has not sent all of its response. -/
def Answers (answer : Source) (o : HyperOutcome) : Prop :=
  (∃ resp r, readResponse answer.1 = .ok (resp, r) ∧ o = .responded (builtResponse resp)) ∨
  (∃ a, readResponse answer.1 = .error (.err a) ∧ o = .responded (errorResponse 502 "bad gateway")) ∨
  (readResponse answer.1 = .error .pending ∧ o = .waiting)

def BodyCame (length : Option ℕ) (rest : List UInt8) : Prop := ∀ n ∈ length, n ≤ rest.length

/-- The bytes of an upstream that the handler can present: they announce nothing that cannot be allocated, and if they are a
response, its status is from 100 to 999, the names of its fields are tokens and their values have no control characters,
apart from the fields that are not handed on. -/
structure Presentable (e : Ending) (bs : List UInt8) : Prop where
  length : ¬ Overlong e bs
  head : ∀ code ps rest, HeadOf e bs code ps rest → BodyCame (ps.foldl lengthAfter none) rest →
    (100 ≤ code ∧ code ≤ 999) ∧ ∀ p ∈ ps, ¬ skipsInResponse p.1 →
      p.1 ≠ [] ∧ p.1.all isToken ∧ (utf8Encode p.2).all isFieldByte

section Handler

variable {http : HttpCrate} {e : Ending} {bs : List UInt8} {code : ℕ} {ps : List (List Char × List Char)}
  {rest : List UInt8} {kind : ForwarderKind} {addr : String} {peer : Peer} {req : HyperRequest} {body : List UInt8}
  {c : Conn} {answer : Source}

theorem not_answers_panicked : ¬ Answers answer .panicked := by
  rintro (⟨resp, r, -, h⟩ | ⟨a, -, h⟩ | ⟨-, h⟩)
  · cases h
  · cases h
  · cases h

theorem mem_handedFields {p : List Char × List Char} :
    p ∈ handedFields (HeaderMap.pushAll [] ps) ↔ p ∈ ps ∧ ¬ skipsInResponse p.1 := by
  have hfields : p ∈ HeaderMap.fields (HeaderMap.pushAll [] ps) ↔ p ∈ ps := HeaderMap.fields_pushAll.mem_iff
  rw [← hfields, handedFields, mem_fields, mem_fields]
  constructor
  · rintro ⟨vs, hmem, hv⟩
    obtain ⟨hmem, hskip⟩ := List.mem_filter.1 hmem
    exact ⟨⟨vs, hmem, hv⟩, by simpa using hskip⟩
  · rintro ⟨⟨vs, hmem, hv⟩, hskip⟩
    exact ⟨vs, List.mem_filter.2 ⟨hmem, by simpa using hskip⟩, hv⟩

theorem decode_of_bodyCame (h : HeadOf e bs code ps rest) (hcame : BodyCame (ps.foldl lengthAfter none) rest)
    (hlength : ¬ Overlong e bs) : ∃ body rest', decode e bs =
      .ok ({ statusCode := code, headers := HeaderMap.pushAll [] ps, body }, rest') := by
  rw [decode_of_headOf h]
  cases hlen : ps.foldl lengthAfter none with
  | none => exact ⟨[], rest, rfl⟩
  | some n =>
    have hsmall : n < 2 ^ 63 := by
      by_contra hlarge
      exact hlength ⟨code, ps, rest, n, h, hlen, Nat.not_lt.1 hlarge⟩
    have hread : (plain e).readExact n rest = .ok (rest.take n, rest.drop n) :=
      Plain.readExact_eq_ok.2 ⟨hcame n hlen, rfl, rfl⟩
    rw [readBody, if_pos hsmall, hread]
    exact ⟨_, _, rfl⟩

theorem headOf_of_ok {resp : Response} {rest' : List UInt8} (h : decode e bs = .ok (resp, rest')) :
    ∃ ps rest, HeadOf e bs resp.statusCode ps rest ∧ resp.headers = HeaderMap.pushAll [] ps ∧
      BodyCame (ps.foldl lengthAfter none) rest := by
  obtain ⟨code, ps, rest, hhead⟩ := headOf_of_decode h
  rw [decode_of_headOf hhead] at h
  obtain ⟨⟨body, rest''⟩, hbody, heq⟩ := bind_eq_ok.1 h
  obtain ⟨rfl, -⟩ := Prod.mk.inj (Except.ok.inj heq)
  refine ⟨ps, rest, hhead, rfl, fun n hn => ?_⟩
  rw [Option.mem_def.1 hn, readBody] at hbody
  split_ifs at hbody
  exact (Plain.readExact_eq_ok.1 (mapError_eq_ok.1 hbody)).1

theorem handleHyperRequest_answered (hbody : req.body = some body) (haddr : ∀ addrs, kind = .pool addrs → addr ∈ addrs)
    (hpeer : peer = .conn c .done answer) :
    handleHyperRequest http kind addr peer req =
      match readResponse answer.1 with
      | .ok (resp, _) =>
        match hyperFromUpstream http resp with
        | some r => .responded r
        | none => .panicked
      | .error (.err _) => .responded (errorResponse 502 "bad gateway")
      | .error .pending => .waiting
      | .error .panic => .panicked := by
  have hforward : (kind.forward addr (upstreamRequest addr req body) peer).2 = forward .done answer := by
    subst hpeer
    cases kind with
    | dial => rfl
    | pool addrs =>
      simp only [ForwarderKind.forward]
      rw [if_pos (haddr addrs rfl)]
      rfl
  unfold handleHyperRequest
  rw [hbody]
  simp only [hforward]
  unfold forward
  cases readResponse answer.1 with
  | ok p => rfl
  | error a => cases a <;> rfl

/-- **When the handler of HTTP/2 requests answers.**  For every request that is forwarded over a connection, and whatever the
upstream sends on it: the handler answers if and only if these bytes are `Presentable`. -/
theorem hyper_answers_iff (hhttp : http.Documented) (hbody : req.body = some body)
    (haddr : ∀ addrs, kind = .pool addrs → addr ∈ addrs) (hpeer : peer = .conn c .done answer) :
    Answers answer (handleHyperRequest http kind addr peer req) ↔
      Presentable answer.1.ending answer.1.flat := by
  rw [handleHyperRequest_answered hbody haddr hpeer]
  constructor
  · intro h
    have hlength : ¬ Overlong answer.1.ending answer.1.flat := by
      intro hlong
      rw [readResponse_overlong answer.2 hlong] at h
      exact not_answers_panicked h
    refine ⟨hlength, fun code ps rest hhead hcame => ?_⟩
    obtain ⟨body', rest', hdecode⟩ := decode_of_bodyCame hhead hcame hlength
    obtain ⟨r, hread, -⟩ := readResponse_of_decode answer.2 hdecode
    rw [hread] at h
    simp only [hyperFromUpstream_eq] at h
    split_ifs at h with hok
    · obtain ⟨hstatus, hfields⟩ := hok
      refine ⟨(hhttp.status code).1 hstatus, fun p hp hskip => ?_⟩
      obtain ⟨hname, hvalue⟩ := hfields p (mem_handedFields.2 ⟨hp, hskip⟩)
      obtain ⟨hne, htoken⟩ := (hhttp.name p.1).1 hname
      exact ⟨hne, htoken, (hhttp.value p.2).1 hvalue⟩
    · exact absurd h not_answers_panicked
  · intro h
    cases hread : readResponse answer.1 with
    | ok p =>
      obtain ⟨resp, r⟩ := p
      obtain ⟨rest', hdecode, -⟩ := decode_of_readResponse answer.2 hread
      obtain ⟨ps, rest, hhead, hheaders, hcame⟩ := headOf_of_ok hdecode
      obtain ⟨hstatus, hfields⟩ := h.head _ _ _ hhead hcame
      have hok : http.status resp.statusCode ∧ ∀ p ∈ handedFields resp.headers, http.name p.1 ∧ http.value p.2 := by
        refine ⟨(hhttp.status _).2 hstatus, fun p hp => ?_⟩
        rw [hheaders, mem_handedFields] at hp
        obtain ⟨hne, htoken, hvalue⟩ := hfields p hp.1 hp.2
        exact ⟨(hhttp.name _).2 ⟨hne, htoken⟩, (hhttp.value _).2 hvalue⟩
      refine .inl ⟨resp, r, hread, ?_⟩
      simp only [hyperFromUpstream_eq, if_pos hok]
    | error a =>
      cases a with
      | err a => exact .inr (.inl ⟨a, hread, rfl⟩)
      | pending => exact .inr (.inr ⟨hread, rfl⟩)
      | panic =>
        obtain ⟨hlong, -⟩ | hregular := readResponse_error answer.2 hread
        · exact absurd hlong h.length
        · exact hregular.elim

end Handler

/-! ## A response that panics -/

/-- The `http` crate, as it is documented. -/
def httpCrate : HttpCrate where
  status code := 100 ≤ code ∧ code ≤ 999
  name k := k ≠ [] ∧ k.all isToken
  value v := (utf8Encode v).all isFieldByte

theorem httpCrate_documented : httpCrate.Documented where
  status code := by simp [httpCrate]
  name k := by simp [httpCrate]
  value v := by simp [httpCrate]

/-- The upstream sends a status line with this code and an empty line, and closes its side. -/
def statusOnly (code : String) : Source :=
  ⟨⟨[utf8Encode ("HTTP/1.1 ".toList ++ code.toList ++ " X\r\n\r\n".toList)], .eof⟩, by simp⟩

def getRoot : HyperRequest := { method := "GET".toList, path := "/".toList, headers := [], body := some [] }

/-- A response with the status 404. -/
theorem hyper_answers_404 :
    httpCrate.Documented ∧ Answers (statusOnly "404")
      (handleHyperRequest httpCrate .dial "a" (.conn ⟨"a", 0⟩ .done (statusOnly "404")) getRoot) ∧
    Presentable (statusOnly "404").1.ending (statusOnly "404").1.flat := by
  have hread : (readResponse (statusOnly "404").1).map Prod.fst = .ok ⟨404, [], []⟩ := by decide
  have hanswers : Answers (statusOnly "404")
      (handleHyperRequest httpCrate .dial "a" (.conn ⟨"a", 0⟩ .done (statusOnly "404")) getRoot) := by
    cases hresp : readResponse (statusOnly "404").1 with
    | error a =>
      rw [hresp] at hread
      cases hread
    | ok p =>
      obtain ⟨resp, r⟩ := p
      rw [hresp] at hread
      obtain rfl : resp = _ := Except.ok.inj hread
      exact .inl ⟨_, r, hresp, by decide⟩
  exact ⟨httpCrate_documented, hanswers, (hyper_answers_iff httpCrate_documented rfl (by simp) rfl).1 hanswers⟩

/-- **The counter-example.**  The status 99 is a `u16`, but no `StatusCode`: `unwrap` panics. -/
theorem low_status_panics :
    ¬ ∀ (http : HttpCrate), http.Documented → ∀ (kind : ForwarderKind) (addr : String) (peer : Peer) (req : HyperRequest)
      (body : List UInt8) (c : Conn) (answer : Source), req.body = some body →
      (∀ addrs, kind = .pool addrs → addr ∈ addrs) → peer = .conn c .done answer →
      Answers answer (handleHyperRequest http kind addr peer req) := by
  intro hall
  have hanswers := hall httpCrate httpCrate_documented .dial "a" _ getRoot [] ⟨"a", 0⟩ (statusOnly "99") rfl (by simp) rfl
  have hpanics : handleHyperRequest httpCrate .dial "a" (.conn ⟨"a", 0⟩ .done (statusOnly "99")) getRoot = .panicked := by
    decide
  rw [hpanics] at hanswers
  exact not_answers_panicked hanswers

end ServiceProxy.ProxyHttp
