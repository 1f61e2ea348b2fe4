import ServiceProxy.Echo
import ServiceProxy.Http3
import ServiceProxy.ProxyFields
import ServiceProxy.Transparent

/-!
# Clients of HTTP/2 and HTTP/3 over pooled connections (`handle_hyper_request`, `handle_http3_request`)

Any number of calls of the two handlers share the connections of one pool.  The libraries hand over requests that are well
formed; the upstream follows RFC 9112, and what it may answer to a request is a relation `L`.

* `Presents` — what of an answer a response shows: its status, its body, and its fields but those that are left out;
* `Fits` — the answers that the response builder has room for; `presented` — it refuses none of them;
* `hyper_run` — in every run, a response is an answer that `L` allows to the client's own request, or a `502`.
-/

namespace ServiceProxy.Transparent

open ServiceProxy.Lib ServiceProxy.Upstream ServiceProxy.ProxyHttp
open ServiceProxy.Lib.Exchange (Net HandsOn handsOn_of_returned)
open ServiceProxy.Lib.Rfc9112 (Received Obeys isToken isVisible isFieldByte)

/-! ## The request -/

/-- What the libraries have checked of a request.  HTTP/2 and HTTP/3 have no `Transfer-Encoding`. -/
structure WellFormed (req : HyperRequest) : Prop where
  method_ne : req.method ≠ []
  path_ne : req.path ≠ []
  method : req.method.all isToken
  path : req.path.all isVisible
  headers : ∀ p ∈ req.headers, p.1 ≠ [] ∧ p.1.all isToken ∧ p.2.all isFieldByte
  plain : ∀ p ∈ req.headers, ¬ eqIgnoreAsciiCase p.1 Rfc9112.transferEncoding

/-- What is forwarded of a request, its headers in some order. -/
structure ForwardedAs (addr : String) (req : HyperRequest) (body : List UInt8) (r : Request) : Prop where
  headers : r.headers.Perm (collect req.headers).headers
  request : r = { upstreamRequest addr req body with headers := r.headers }

section Request

variable {addr : String} {req : HyperRequest} {body : List UInt8} {r : Request}

theorem ForwardedAs.mem_texts (h : ForwardedAs addr req body r) {k : List Char} {vs : List (List Char)}
    (hmem : (k, vs) ∈ r.headers) : vs ≠ [] ∧ ∀ v ∈ vs, (k, v) ∈ texts req.headers := by
  have hmem := h.headers.mem_iff.1 hmem
  rw [collect, foldl_add_headers] at hmem
  exact HeaderMap.mem_pushAll hmem

theorem ForwardedAs.sendable (haddr : Echo.Writable addr) (hwell : WellFormed req) (h : ForwardedAs addr req body r) :
    SendableRequest r := by
  have hheaders : ∀ k vs, (k, vs) ∈ r.headers → ∀ v ∈ vs, Sendable k v := by
    intro k vs hmem v hv
    obtain ⟨p, hp, hpair⟩ := List.mem_map.1 ((h.mem_texts hmem).2 v hv)
    obtain ⟨rfl, rfl⟩ := Prod.mk.inj hpair
    obtain ⟨hne, htoken, hvalue⟩ := hwell.headers p hp
    exact ⟨hne, htoken, isFieldByte_lossy hvalue⟩
  rw [h.request]
  exact ⟨hwell.method_ne, hwell.path_ne, hwell.method, hwell.path, haddr, hheaders⟩

theorem ForwardedAs.oneLine (haddr : Echo.Writable addr) (hwell : WellFormed req) (h : ForwardedAs addr req body r) :
    OneLine r :=
  (h.sendable haddr hwell).oneLine fun _ _ hmem => (h.mem_texts hmem).1

/-- **The upstream reads the request of the client.** -/
theorem ForwardedAs.read (haddr : Echo.Writable addr) (hwell : WellFormed req) (h : ForwardedAs addr req body r) :
    Rfc9112.readRequest (writeRequest r) = .complete ⟨req.method, req.path, body⟩ [] := by
  have hplain : ∀ k vs, (k, vs) ∈ r.headers → eqIgnoreAsciiCase k Rfc9112.transferEncoding → vs = [] := by
    intro k vs hmem hk
    obtain ⟨hne, htexts⟩ := h.mem_texts hmem
    obtain ⟨v, vs', rfl⟩ := List.exists_cons_of_ne_nil hne
    obtain ⟨p, hp, hpair⟩ := List.mem_map.1 (htexts v List.mem_cons_self)
    obtain ⟨rfl, -⟩ := Prod.mk.inj hpair
    exact absurd hk (hwell.plain p hp)
  rw [readRequest_writeRequest (h.sendable haddr hwell) hplain, h.request]
  rfl

end Request

/-! ## The response -/

/-- What the response builder takes of what has room in it. -/
structure Takes (http : HttpCrate) : Prop where
  status : ∀ code, 100 ≤ code → code ≤ 999 → http.status code
  name : ∀ k : List Char, k ≠ [] → k.all isToken → k.length ≤ 65535 → http.name k
  value : ∀ v, (utf8Encode v).all isFieldByte → http.value v

theorem takes_of_documented {http : HttpCrate} (h : http.Documented) : Takes http :=
  ⟨fun code hge hle => (h.status code).2 ⟨hge, hle⟩, fun k hne htoken _ => (h.name k).2 ⟨hne, htoken⟩, fun v => (h.value v).2⟩

/-- **An answer that has room in a `HeaderMap`.**  The builder of the model takes any number of fields, that of the crate no more
than these. -/
def Fits (a : EchoAnswer) : Prop := a.head.fields.length ≤ 24576 ∧ ∀ f ∈ a.head.fields, f.name.length ≤ 65535

instance (a : EchoAnswer) : Decidable (Fits a) := inferInstanceAs (Decidable (_ ∧ _))

/-- **What a response shows of an answer**: the status, the body, and the fields but those that are left out, with their names
in small letters.  The fields of one name come in their order, if the name is written in one way. -/
structure Presents (a : EchoAnswer) (r : HyperResponse) (ps : List (List Char × List Char)) : Prop where
  status : r.status = a.head.code
  body : r.body = a.body
  texts : fieldTexts a.head.fields = some ps
  headers : r.headers.Perm ((ps.filter fun p => !skipsInResponse p.1).map fun p => (toAsciiLowercase p.1, p.2))
  ordered : ∀ k, ¬ skipsInResponse k → (∀ p ∈ ps, toAsciiLowercase p.1 = toAsciiLowercase k → p.1 = k) →
    valuesAt (toAsciiLowercase k) r.headers = valuesAt k ps

section Response

variable {http : HttpCrate} {a : EchoAnswer} {resp : Response} {ps : List (List Char × List Char)} {k : List Char}

theorem filter_fields (q : List Char → Bool) (m : HeaderMap) :
    HeaderMap.fields (m.filter fun p => q p.1) = (HeaderMap.fields m).filter fun p => q p.1 := by
  induction m with
  | nil => rfl
  | cons p m ih =>
    obtain ⟨k, vs⟩ := p
    have hcons : ∀ m : HeaderMap, HeaderMap.fields ((k, vs) :: m) = vs.map (fun v => (k, v)) ++ HeaderMap.fields m :=
      fun _ => rfl
    rw [hcons, List.filter_append, List.filter_cons]
    cases hk : q k with
    | true =>
      rw [if_pos rfl, hcons, ih]
      simp [List.filter_map, Function.comp_def, hk]
    | false =>
      rw [if_neg Bool.false_ne_true, ih]
      simp [List.filter_map, Function.comp_def, hk]

theorem valuesAt_filter (q : List Char → Bool) (hq : q k) : valuesAt k (ps.filter fun p => q p.1) = valuesAt k ps := by
  unfold valuesAt
  rw [List.filter_filter]
  congr 1
  refine List.filter_congr fun p _ => ?_
  by_cases hp : p.1 = k
  · simp [hp, hq]
  · simp [hp]

theorem valuesAt_lowercase (h : ∀ p ∈ ps, toAsciiLowercase p.1 = toAsciiLowercase k → p.1 = k) :
    valuesAt (toAsciiLowercase k) (ps.map fun p => (toAsciiLowercase p.1, p.2)) = valuesAt k ps := by
  have hfilter : (ps.filter fun p => toAsciiLowercase p.1 = toAsciiLowercase k) = ps.filter fun p => p.1 = k := by
    refine List.filter_congr fun p hp => ?_
    rw [decide_eq_decide]
    exact ⟨h p hp, congrArg _⟩
  unfold valuesAt
  rw [List.filter_map, List.map_map, ← hfilter]
  rfl

theorem field_of_mem_fieldTexts {fs : List Rfc9112.Field} (hps : fieldTexts fs = some ps) {p : List Char × List Char}
    (hp : p ∈ ps) : (∃ f ∈ fs, f.name = p.1) ∧ p.1 ≠ [] ∧ p.1.all isToken ∧ (utf8Encode p.2).all isFieldByte := by
  induction fs generalizing ps with
  | nil =>
    obtain rfl : [] = ps := by simpa [fieldTexts] using hps
    cases hp
  | cons f fs ih =>
    simp only [fieldTexts, Option.bind_eq_some_iff, Option.map_eq_some_iff] at hps
    obtain ⟨v, hv, ps, hps, rfl⟩ := hps
    rcases List.mem_cons.1 hp with rfl | hp
    · refine ⟨⟨f, List.mem_cons_self, rfl⟩, f.name_ne, f.token, List.all_eq_true.2 fun b hb => ?_⟩
      obtain ⟨c, hc, hbc⟩ := List.mem_flatMap.1 hb
      have hmem : b ∈ f.value := by
        rw [← utf8Decode_eq_some.1 hv]
        exact List.mem_flatMap.2 ⟨c, mem_of_mem_trim hc, hbc⟩
      exact List.all_eq_true.1 f.valid b hmem
    · obtain ⟨⟨f', hf', hname⟩, hsends⟩ := ih hps hp
      exact ⟨⟨f', List.mem_cons_of_mem _ hf', hname⟩, hsends⟩

/-- **The builder refuses no answer of a server that follows RFC 9112**, as long as it has room for it. -/
theorem presented (hhttp : Takes http) (hfits : Fits a) (h : Carries a resp) :
    hyperFromUpstream http resp = some (builtResponse resp) ∧ ∃ ps, Presents a (builtResponse resp) ps := by
  obtain ⟨hcode, hbody, ps, hps, hheaders⟩ := h
  have hstatus := a.status
  have hlt := a.head.code_lt
  have hhanded : handedFields resp.headers = (HeaderMap.fields resp.headers).filter fun p => !skipsInResponse p.1 :=
    filter_fields (fun k => !skipsInResponse k) _
  constructor
  · rw [hyperFromUpstream_eq, if_pos]
    refine ⟨hhttp.status _ (by omega) (by omega), fun p hp => ?_⟩
    rw [hheaders, mem_handedFields] at hp
    obtain ⟨⟨f, hf, hname⟩, hne, htoken, hvalue⟩ := field_of_mem_fieldTexts hps hp.1
    exact ⟨hhttp.name _ hne htoken (hname ▸ hfits.2 f hf), hhttp.value _ hvalue⟩
  · refine ⟨ps, hcode, hbody, hps, ?_, fun k hk hsole => ?_⟩
    · change ((handedFields resp.headers).map _).Perm _
      rw [hhanded, hheaders]
      exact (HeaderMap.fields_pushAll.filter _).map _
    · change valuesAt _ ((handedFields resp.headers).map _) = _
      have hmem : ∀ p ∈ handedFields resp.headers, toAsciiLowercase p.1 = toAsciiLowercase k → p.1 = k := by
        intro p hp
        rw [hheaders, mem_handedFields] at hp
        exact hsole p hp.1
      have hshown : !skipsInResponse k := by simpa using hk
      have hkeys : ((HeaderMap.pushAll [] ps).map Prod.fst).Nodup := HeaderMap.nodup_pushAll List.nodup_nil
      rw [valuesAt_lowercase hmem, hhanded, valuesAt_filter (fun k => !skipsInResponse k) hshown, hheaders,
        HeaderMap.valuesAt_fields hkeys, HeaderMap.get_pushAll]
      rfl

end Response

/-! ## Runs -/

/-- **The response is for this client**: an answer that `L` allows to its request, or a `502` because forwarding has failed. -/
inductive Served (L : Received → EchoAnswer → Prop) (m : Received) (x : Except (Halt UpstreamError) Response) :
    HyperResponse → Prop
  | answer {resp : Response} {a : EchoAnswer} {r : HyperResponse} {ps : List (List Char × List Char)} :
      x = .ok resp → L m a → Presents a r ps → Served L m x r
  | badGateway {e : UpstreamError} : x = .error (.err e) → Served L m x (errorResponse 502 "bad gateway")

section Run

variable {http : HttpCrate} {L : Received → EchoAnswer → Prop} {addr : String} {maxSize : ℕ} {hs : ℕ → HyperRequest}
  {bodies : ℕ → List UInt8} {reqs : ℕ → Request} {es : List (Exchange.Ev Ev Conn EchoAnswer)}
  {t : Net Sys Conn UInt8 EchoAnswer Response}

theorem handleHyperRequest_eq {kind : ForwarderKind} {peer : Peer} {req : HyperRequest} {body : List UInt8}
    (hbody : req.body = some body) (r : Request) : handleHyperRequest http kind addr peer req =
      match (kind.forward addr r peer).2 with
      | .ok resp =>
        match hyperFromUpstream http resp with
        | some r => .responded r
        | none => .panicked
      | .error (.err _) => .responded (errorResponse 502 "bad gateway")
      | .error .pending => .waiting
      | .error .panic => .panicked := by
  have hforward := forward_eq kind addr r (upstreamRequest addr req body) peer
  rw [handleHyperRequest, hbody]
  exact hforward ▸ rfl

/-- **Clients of HTTP/2 and HTTP/3 are told apart.**  Any number of calls of the two handlers over one pool, in any interleaving,
with any segments, any failures and any order of the header maps, for answers that the response builder has room for: a handler
panics only if forwarding does.  What the handler of HTTP/2 responds is an answer that the upstream may give to the client's own
request, or a `502`; and the handler of HTTP/3 sends the same, in whatever chunks the body has come and as far as the sends
return. -/
theorem hyper_run (hhttp : Takes http) (hfits : ∀ m a, L m a → Fits a) (haddr : Echo.Writable addr) (hwell : ∀ j, WellFormed (hs j))
    (hbodies : ∀ j, (hs j).body = some (bodies j)) (hreqs : ∀ j, ForwardedAs addr (hs j) (bodies j) (reqs j))
    (h : Run (Exchange.step pooling protocol reqs) (ServedBy (Obeys L)) (Net.new (Sys.new addr maxSize)) es t) {i : ℕ}
    {kind : ForwarderKind} {peer : Peer} (hforward : HandsOn t i (kind.forward addr (reqs i) peer).2) :
    (handleHyperRequest http kind addr peer (hs i) = .panicked ↔ (kind.forward addr (reqs i) peer).2 = .error .panic) ∧
      (∀ r, handleHyperRequest http kind addr peer (hs i) = .responded r →
        Served L ⟨(hs i).method, (hs i).path, bodies i⟩ (kind.forward addr (reqs i) peer).2 r) ∧
      ∀ q : Http3Talk, q.addr = addr → q.peer = peer → q.hyper q.chunks.flat = hs i → q.chunks.ending = .eof →
        Follows q (handleHyperRequest http kind addr peer (hs i)) (handleHttp3Request http kind q).1.1
          (handleHttp3Request http kind q).1.2 ∧
        (handleHttp3Request http kind q).1.2 ≠ .error (.err .http) := by
  have hpresented : ∀ resp, (kind.forward addr (reqs i) peer).2 = .ok resp → ∃ a ps,
      L ⟨(hs i).method, (hs i).path, bodies i⟩ a ∧ Presents a (builtResponse resp) ps ∧
        hyperFromUpstream http resp = some (builtResponse resp) := by
    intro resp hx
    obtain ⟨call, hcall, hr⟩ := hforward resp hx
    obtain ⟨a, hobeys, hcarries⟩ := forward_pooled_answered (fun j => (hreqs j).oneLine haddr (hwell j)) h hcall hr
    have hL := hobeys.read _ _ ((hreqs i).read haddr (hwell i))
    obtain ⟨hbuilt, ps, hpresents⟩ := presented hhttp (hfits _ _ hL) hcarries
    exact ⟨a, ps, hL, hpresents, hbuilt⟩
  refine ⟨?_, fun r hr => ?_, fun q haddr' hpeer hq heof => ?_⟩
  · rw [handleHyperRequest_eq (hbodies i) (reqs i)]
    cases hx : (kind.forward addr (reqs i) peer).2 with
    | ok resp =>
      obtain ⟨a, ps, -, -, hbuilt⟩ := hpresented resp hx
      simp [hbuilt]
    | error b => cases b <;> simp
  · rw [handleHyperRequest_eq (hbodies i) (reqs i)] at hr
    cases hx : (kind.forward addr (reqs i) peer).2 with
    | ok resp =>
      obtain ⟨a, ps, hL, hpresents, hbuilt⟩ := hpresented resp hx
      simp only [hx, hbuilt] at hr
      obtain rfl := HyperOutcome.responded.inj hr
      exact .answer rfl hL hpresents
    | error b =>
      rw [hx] at hr
      cases b with
      | err e =>
        obtain rfl := HyperOutcome.responded.inj hr
        exact .badGateway rfl
      | pending => cases hr
      | panic => cases hr
  · subst haddr' hpeer
    rcases hx : kind.forward q.addr (upstreamRequest q.addr (q.hyper q.chunks.flat) q.chunks.flat) q.peer with ⟨fx, x⟩
    obtain ⟨hresult, -⟩ : (handleHttp3Request http kind q).1 = http3Outcome http q x ∧ _ := handleHttp3Request_eof heof hx
    have hfollows := follows_outcome (hhttp.status 502 (by decide) (by decide)) hx
    rw [hq] at hfollows
    have hx₂ : (kind.forward q.addr (reqs i) q.peer).2 = x := by
      rw [forward_eq kind q.addr (reqs i) (upstreamRequest q.addr (q.hyper q.chunks.flat) q.chunks.flat), hx]
    rw [hresult]
    refine ⟨hfollows, ?_⟩
    cases x with
    | ok resp =>
      obtain ⟨a, ps, -, -, hbuilt⟩ := hpresented resp hx₂
      rw [http3Builder_eq] at hbuilt
      obtain ⟨p, hp, -⟩ := Option.map_eq_some_iff.1 hbuilt
      simp only [http3Outcome, hp]
      exact sendFrames_ne_http _
    | error b =>
      cases b with
      | err e =>
        simp only [http3Outcome, status_badGateway (hhttp.status 502 (by decide) (by decide))]
        exact sendFrames_ne_http _
      | pending =>
        intro h
        cases h
      | panic =>
        intro h
        cases h

end Run

/-! ## A run -/

/-- `GET /` for the upstream `u:1`. -/
def getUpstream : Request := upstreamRequest "u:1" ProxyHttp.getRoot []

theorem wellFormed_getRoot : WellFormed ProxyHttp.getRoot where
  method_ne := by decide
  path_ne := by decide
  method := by decide
  path := by decide
  headers _ hp := absurd hp List.not_mem_nil
  plain _ hp := absurd hp List.not_mem_nil

/-- One call, which gets its answer in two segments. -/
def calling : List (Exchange.Ev Ev Conn EchoAnswer) :=
  [.pool .call, .pool (.run 0 .lock), .pool (.run 0 .fetchAdd), .pool (.run 0 .dialOk), .start 0,
    .call 0 (.write (writeRequest getUpstream).length), .call 0 .flush, .serve conn0 (okAnswer 104), .call 0 (.recv 10),
    .call 0 (.recv 29), .done 0, .pool (.run 0 .lock)]

/-- An upstream that answers `200` to everything, not in chunks and with what the builder has room for. -/
def Briefly (m : Received) (a : EchoAnswer) : Prop := Plainly m a ∧ Fits a

instance (m : Received) (a : EchoAnswer) : Decidable (Briefly m a) := inferInstanceAs (Decidable (_ ∧ _))

/-- The call, over HTTP/3. -/
def getTalk : Http3Talk where
  method := "GET".toList
  path := "/".toList
  headers := []
  chunks := ⟨[], .eof⟩
  addr := "u:1"
  tok := 0
  peer := rootTalk.peer
  sendResponse := .done
  sendData := .done
  finish := .done

/-- Over HTTP/2 and over HTTP/3, the client gets the answer. -/
theorem hyper_run_get : ∃ r,
    handleHyperRequest httpCrate (.pool ["u:1"]) "u:1" getTalk.peer ProxyHttp.getRoot = .responded r ∧ r.status = 200 ∧
      r.body = [104] ∧
      (handleHttp3Request httpCrate (.pool ["u:1"]) getTalk).1 = ([.headers 200 [], .data [104], .fin], .ok ()) := by
  have hexec : (exec (Exchange.step pooling protocol fun _ => getUpstream) (ServedBy (Obeys Briefly)) (Net.new (Sys.new "u:1" 1))
      calling).map (fun t => (t.calls 0).map fun call => call.phase) = some (some (.returned rootResponse)) := by
    decide +kernel
  obtain ⟨t, ht, hphase⟩ := Option.map_eq_some_iff.1 hexec
  have hok : ((ForwarderKind.pool ["u:1"]).forward "u:1" getUpstream getTalk.peer).2 = .ok rootResponse := by decide +kernel
  have hresponded : handleHyperRequest httpCrate (.pool ["u:1"]) "u:1" getTalk.peer ProxyHttp.getRoot =
      .responded ⟨200, [], [104]⟩ := by
    decide +kernel
  obtain ⟨-, -, hhttp3⟩ := hyper_run (takes_of_documented httpCrate_documented) (fun _ _ hbriefly => hbriefly.2) (by decide)
    (fun _ => wellFormed_getRoot) (fun _ => rfl) (fun _ => ⟨.refl _, rfl⟩) (Run.of_exec ht) (handsOn_of_returned hok hphase)
  obtain ⟨hfollows, -⟩ := hhttp3 getTalk rfl rfl rfl rfl
  rw [hresponded] at hfollows
  refine ⟨_, hresponded, ?_⟩
  generalize hx : (handleHttp3Request httpCrate (.pool ["u:1"]) getTalk).1.2 = x at hfollows
  generalize hframes : (handleHttp3Request httpCrate (.pool ["u:1"]) getTalk).1.1 = frames at hfollows
  cases hfollows with
  | responded hpart hall hdone hpanic =>
    have hsent : x = .ok () := hdone.2 ⟨rfl, rfl, rfl⟩
    exact ⟨rfl, rfl, Prod.ext (hframes.trans (hall.1 hsent)) (hx.trans hsent)⟩

end ServiceProxy.Transparent
