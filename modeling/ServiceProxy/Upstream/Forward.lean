import ServiceProxy.Upstream.PoolLend
import ServiceProxy.Upstream.Decode
import ServiceProxy.Upstream.Sent
import ServiceProxy.Lib.ExchangeRun
import ServiceProxy.Lib.Rfc9112Delimit

/-!
# Forwarding over pooled connections (`forward_pooled`)

The calls of `forward_pooled` on one pool, any number of them, as exchanges over its connections.  The upstream delimits
requests by the `Content-Length` line that `write_request` sends, and answers each with one final response that has one
`Content-Length` line (`EchoAnswer`).

* `delimit_writeRequest` — it finds the end of every request;
* `sound_short` — `read_response` reads such an answer to its end or fails, if the length of the body is a `usize`.

`forward_pooled_correct`: responses are not mixed up, as long as no body is longer than a `usize` can say.
-/

namespace ServiceProxy.Upstream

open ServiceProxy.Lib
open ServiceProxy.Lib.Exchange (Protocol Net Correct Delimited Sound)
open ServiceProxy.Lib.Rfc9112 (Field StatusHead soleLength)

/-! ## Requests -/

/-- No text of the request ends its line, and no name its field name.  The handlers build no other requests: `httparse` and
`http` refuse such texts. -/
structure OneLine (req : Request) : Prop where
  method : '\n' ∉ req.method
  path : '\n' ∉ req.path
  host : '\n' ∉ req.host
  name : ∀ k vs, (k, vs) ∈ req.headers → '\n' ∉ k ∧ ':' ∉ k
  value : ∀ k vs, (k, vs) ∈ req.headers → ∀ v ∈ vs, '\n' ∉ v

def startLine (req : Request) : List UInt8 := utf8Encode (req.method ++ ' ' :: req.path ++ " HTTP/1.1".toList)

def encodeField (p : List Char × List Char) : List UInt8 × List UInt8 := (utf8Encode p.1, utf8Encode p.2)

theorem encode_headerLine (p : List Char × List Char) :
    utf8Encode (headerLine p.1 p.2) = Rfc9112.fieldLine (encodeField p) ++ Rfc9112.crlf := by
  have hsep : utf8Encode ": ".toList = [58, 32] := by decide
  rw [headerLine, utf8Encode_append, utf8Encode_append, utf8Encode_append, hsep, crlf_eq_encode]
  simp [Rfc9112.fieldLine, encodeField]

theorem writeRequest_lines (req : Request) :
    writeRequest req =
      (startLine req :: ((sentFields req).map encodeField).map Rfc9112.fieldLine).flatMap (· ++ Rfc9112.crlf) ++
        (Rfc9112.crlf ++ req.body) := by
  have hfields : ∀ ps : List (List Char × List Char), utf8Encode (ps.flatMap fun p => headerLine p.1 p.2) =
      ((ps.map encodeField).map Rfc9112.fieldLine).flatMap (· ++ Rfc9112.crlf) := by
    intro ps
    induction ps with
    | nil => rfl
    | cons p ps ih => simp only [List.flatMap_cons, List.map_cons, utf8Encode_append, ih, encode_headerLine]
  unfold writeRequest
  rw [requestHead_eq, utf8Encode_append, utf8Encode_append, utf8Encode_append, hfields, ← crlf_eq_encode]
  simp [startLine]

theorem onLine_encodeField {p : List Char × List Char} (hk : '\n' ∉ p.1) (hcolon : ':' ∉ p.1) (hv : '\n' ∉ p.2) :
    Rfc9112.OnLine (encodeField p) where
  name := notMem_encode (c := '\n') (by decide) hk
  colon := notMem_encode (c := ':') (by decide) hcolon
  value := notMem_encode (c := '\n') (by decide) hv

theorem OneLine.onLine {req : Request} (h : OneLine req) : ∀ p ∈ sentFields req, Rfc9112.OnLine (encodeField p) := by
  intro p hp
  simp only [sentFields, List.mem_append, List.mem_cons, List.not_mem_nil, or_false] at hp
  rcases hp with (hp | hp) | rfl | rfl
  · split_ifs at hp
    · cases hp
    · obtain rfl := List.mem_singleton.1 hp
      exact onLine_encodeField (show '\n' ∉ "Host".toList by decide) (show ':' ∉ "Host".toList by decide) h.host
  · obtain ⟨vs, hmem, hv, -⟩ := mem_copiedFields.1 hp
    obtain ⟨hk, hcolon⟩ := h.name _ vs hmem
    exact onLine_encodeField hk hcolon (h.value _ vs hmem _ hv)
  · refine onLine_encodeField (show '\n' ∉ "Content-Length".toList by decide)
      (show ':' ∉ "Content-Length".toList by decide) fun hlf => ?_
    have := isDigit_toNat (Nat.isDigit_of_mem_toDigits (by decide) (by decide) hlf)
    revert this
    decide
  · exact onLine_encodeField (show '\n' ∉ "Connection".toList by decide) (show ':' ∉ "Connection".toList by decide)
      (show '\n' ∉ "keep-alive".toList by decide)

/-- **The upstream finds the end of every request.** -/
theorem delimit_writeRequest {req : Request} (h : OneLine req) :
    Rfc9112.delimit (writeRequest req) = some (writeRequest req).length := by
  have hsent : (sentFields req).map encodeField =
      ((if req.host.isEmpty then [] else [("Host".toList, req.host)]) ++ copiedFields req.headers).map encodeField ++
        encodeField ("Content-Length".toList, Nat.toDigits 10 req.body.length) ::
          [encodeField ("Connection".toList, "keep-alive".toList)] := by
    rw [sentFields, List.map_append]
    rfl
  rw [writeRequest_lines, hsent]
  refine Rfc9112.delimit_fields (by simp [startLine]) ?_ ?_ ?_ ?_ (Rfc9112.number?_toDigits _)
  · refine notMem_encode (c := '\n') (by decide) ?_
    simp only [List.mem_append, List.mem_cons, not_or]
    exact ⟨⟨h.method, by decide, h.path⟩, by decide⟩
  · rw [← hsent]
    intro p hp
    obtain ⟨q, hq, rfl⟩ := List.mem_map.1 hp
    exact h.onLine q hq
  · -- no line before it has the name
    intro p hp
    obtain ⟨q, hq, rfl⟩ := List.mem_map.1 hp
    rw [encodeField, Rfc9112.valueIs_encode]
    rcases List.mem_append.1 hq with hq | hq
    · split_ifs at hq
      · cases hq
      · obtain rfl := List.mem_singleton.1 hq
        exact show ¬ eqIgnoreAsciiCase "Host".toList Rfc9112.contentLength by decide
    · obtain ⟨vs, -, -, hskip⟩ := mem_copiedFields.1 hq
      exact eqIgnoreAsciiCase_contentLength hskip
  · rw [encodeField, Rfc9112.valueIs_encode]
    exact show eqIgnoreAsciiCase "Content-Length".toList Rfc9112.contentLength = true by decide

/-! ## Answers -/

/-- A final response with one `Content-Length` line, which is the length of its body. -/
structure EchoAnswer where
  head : StatusHead
  body : List UInt8
  status : 200 ≤ head.code
  framed : soleLength head.fields = some body.length

def EchoAnswer.bytes (a : EchoAnswer) : List UInt8 := a.head.bytes ++ a.body

/-- The response carries the status code, the fields with their values trimmed, and the body of the answer. -/
def Carries (a : EchoAnswer) (resp : Response) : Prop :=
  resp.statusCode = a.head.code ∧ resp.body = a.body ∧
    ∃ ps, fieldTexts a.head.fields = some ps ∧ resp.headers = HeaderMap.pushAll [] ps

/-- `write_request` and `read_response`, and the upstream they are written for. -/
def protocol : Protocol UInt8 Request EchoAnswer Response UpstreamError where
  encode := writeRequest
  delimit := Rfc9112.delimit
  bytes := EchoAnswer.bytes
  read conn := (readResponse conn).map fun p => (p.1, p.2.inner.flat)

/-- `read_response` on the bytes of an answer: it reads them all or fails. -/
theorem decode_echo {a : EchoAnswer} {e : Ending} {resp : Response} {rest : List UInt8} (hlen : a.body.length < 2 ^ 64)
    (h : decode e a.bytes = .ok (resp, rest)) : rest = [] ∧ Carries a resp := by
  unfold EchoAnswer.bytes at h
  by_cases hu : Utf8Head a.head
  · obtain ⟨ps, hps, hdecode⟩ := decode_head_utf8 hu
    rw [hdecode, foldl_lengthAfter_of_sole hps a.framed, if_pos hlen] at h
    by_cases hvec : a.body.length < 2 ^ 63
    · have hread : readBody (plain e) (some a.body.length) a.body = .ok (a.body, []) :=
        readBody_eq_all.2 ⟨hvec, rfl, rfl⟩
      simp only [hread, bind, Except.bind, Except.ok.injEq, Prod.mk.injEq] at h
      obtain ⟨rfl, rfl⟩ := h
      exact ⟨rfl, rfl, rfl, ps, hps, rfl⟩
    · -- `vec![0u8; n]` panics
      have hread : readBody (plain e) (some a.body.length) a.body = .error .panic := if_neg hvec
      rw [hread] at h
      cases h
  · rw [decode_head_invalid hu] at h
    cases h

/-- The length of the body is a `usize`. -/
def Short (a : EchoAnswer) : Prop := a.body.length < 2 ^ 64

instance (a : EchoAnswer) : Decidable (Short a) := inferInstanceAs (Decidable (_ < _))

/-- **`read_response` is a sound reader** of short answers: in whatever segments they arrive, it reads them to their end or
does not return. -/
theorem sound_short : Sound protocol Short Carries where
  delimit_nil := rfl
  read_nil := by
    intro x hx
    have hempty : readResponse ⟨[], .eof⟩ = .error (.err (.parse "empty status line".toList)) := by decide
    simp [protocol, hempty, Except.map] at hx
  read_exact := by
    intro a segs rest e resp left ha hne hbytes he hread
    simp only [protocol] at hread hbytes
    cases hresp : readResponse ⟨segs, e⟩ with
    | error h => simp [hresp, Except.map] at hread
    | ok p =>
      obtain ⟨resp', r⟩ := p
      simp only [hresp, Except.map, Except.ok.injEq, Prod.mk.injEq] at hread
      obtain ⟨rfl, rfl⟩ := hread
      obtain ⟨t, hdecode, hr⟩ := decode_of_readResponse hne hresp
      -- the whole answer is read as the part that has arrived
      have hwhole : decode e a.bytes = .ok (resp', t ++ rest) := by
        rcases he with rfl | ⟨rfl, rfl⟩
        · have hmore := decode_more .open segs.flatten rest
          rw [show decode .open segs.flatten = .ok (resp', t) from hdecode] at hmore
          obtain ⟨t', hmore, rfl⟩ := hmore
          rw [← hbytes]
          exact hmore
        · rw [← hbytes, List.append_nil, List.append_nil]
          exact hdecode
      obtain ⟨hnil, hcarries⟩ := decode_echo ha hwhole
      obtain ⟨rfl, rfl⟩ := List.append_eq_nil_iff.1 hnil
      exact ⟨(List.append_eq_nil_iff.1 hr.bytes).2, rfl, hcarries⟩

/-! ## Runs -/

/-- The upstream's answers are short. -/
def AnswersShort (_ : Net Sys Conn UInt8 EchoAnswer Response) : Exchange.Ev Ev Conn EchoAnswer → Prop
  | .serve _ a => Short a
  | _ => True

instance (s : Net Sys Conn UInt8 EchoAnswer Response) (e : Exchange.Ev Ev Conn EchoAnswer) :
    Decidable (AnswersShort s e) := by
  cases e <;> unfold AnswersShort <;> infer_instance

/-- **Pooled forwarding does not mix up responses.**  Any number of calls of `forward_pooled`, the `i`-th with the request
`reqs i`, in any interleaving, with any segments and any failures: every response that is returned carries the answer the
upstream gave to that very request, and on every idle connection everything is answered and read; provided that the length
of every body is a `usize`. -/
theorem forward_pooled_correct {addr : String} {maxSize : ℕ} {reqs : ℕ → Request} (hreqs : ∀ i, OneLine (reqs i))
    {es : List (Exchange.Ev Ev Conn EchoAnswer)} {t : Net Sys Conn UInt8 EchoAnswer Response}
    (h : Run (Exchange.step pooling protocol reqs) AnswersShort (Net.new (Sys.new addr maxSize)) es t) :
    Correct pooling protocol reqs Carries t := by
  refine Exchange.run_correct discipline sound_short (fun i n k hk => ?_) (fun _ _ _ ha => ha) (placed_new addr maxSize)
    (fun i => rfl) h
  exact Rfc9112.delimit_take (delimit_writeRequest (hreqs i)) hk

/-- `HTTP/1.1 200 OK` with a body of one byte. -/
def okAnswer (b : UInt8) : EchoAnswer where
  head := Rfc9112.okHead Rfc9112.lengthOne
  body := [b]
  status := by decide
  framed := by rw [show [b].length = 1 from rfl]; decide

/-- `GET / HTTP/1.1`. -/
def getRoot : Request := ⟨"GET".toList, "/".toList, [], [], []⟩

theorem oneLine_getRoot : OneLine getRoot where
  method := by decide
  path := by decide
  host := by decide
  name := by simp [getRoot]
  value := by simp [getRoot]

def conn0 : Conn := ⟨"u:1", 0⟩

/-- The call `0` dials a connection and sends its request. -/
def asking : List (Exchange.Ev Ev Conn EchoAnswer) :=
  [.pool .call, .pool (.run 0 .lock), .pool (.run 0 .fetchAdd), .pool (.run 0 .dialOk), .start 0, .call 0 (.write 20),
    .call 0 (.write 41), .call 0 .flush]

/-- It reads the answer in two segments and puts the connection back; the call `1` gets it and does the same. -/
def reusing : List (Exchange.Ev Ev Conn EchoAnswer) :=
  asking ++ [.serve conn0 (okAnswer 104), .call 0 (.recv 10), .call 0 (.recv 29), .done 0, .pool (.run 0 .lock),
    .pool (.notify 0 none), .pool .call, .pool (.run 1 .lock), .start 1, .call 1 (.write 61), .call 1 .flush,
    .serve conn0 (okAnswer 105), .call 1 (.recv 39), .done 1, .pool (.run 1 .lock)]

/-- Two calls, one after the other on one connection. -/
theorem forward_pooled_correct_reused :
    ∃ t, Run (Exchange.step pooling protocol fun _ => getRoot) AnswersShort (Net.new (Sys.new "u:1" 1)) reusing t ∧
      (t.calls 0).map (fun call => call.phase) = some (.returned ⟨200, [("Content-Length".toList, [['1']])], [104]⟩) ∧
      (t.calls 1).map (fun call => call.phase) = some (.returned ⟨200, [("Content-Length".toList, [['1']])], [105]⟩) ∧
      t.pool.shared.idle = [conn0] ∧ Correct pooling protocol (fun _ => getRoot) Carries t := by
  have hrun : Run (Exchange.step pooling protocol fun _ => getRoot) AnswersShort (Net.new (Sys.new "u:1" 1)) reusing _ :=
    Run.of_exec_get (by decide)
  exact ⟨_, hrun, by decide, by decide, by decide, forward_pooled_correct (fun _ => oneLine_getRoot) hrun⟩

/-- A head that announces `2 ^ 64` bytes. -/
def hugeHead : StatusHead := Rfc9112.okHead (Rfc9112.lengthField "18446744073709551616".toList (by decide))

/-- What `read_response` returns when it has read that head. -/
def hugeResponse : Response := ⟨200, [("Content-Length".toList, ["18446744073709551616".toList])], []⟩

theorem readResponse_hugeHead : protocol.read ⟨[hugeHead.bytes], .open⟩ = .ok (hugeResponse, []) := by decide

theorem exists_run_hugeHead (a : EchoAnswer) (ha : a.head = hugeHead) :
    ∃ es t, Run (Exchange.step pooling protocol fun _ => getRoot) Any (Net.new (Sys.new "u:1" 1)) es t ∧
      t.calls 0 = some ⟨conn0, 0, .returned hugeResponse⟩ ∧ (t.links conn0).log = [⟨writeRequest getRoot, a⟩] := by
  have hrun : Run (Exchange.step pooling protocol fun _ => getRoot) Any (Net.new (Sys.new "u:1" 1)) asking _ :=
    Run.of_exec_get (by decide)
  generalize hs : (exec (Exchange.step pooling protocol fun _ => getRoot) Any (Net.new (Sys.new "u:1" 1)) asking).get
    (by decide) = s at hrun
  have huser : pooling.user s.pool 0 = some conn0 := by rw [← hs]; decide
  have hcall : s.calls 0 = some ⟨conn0, 0, .reading []⟩ := by rw [← hs]; decide
  have hlink : s.links conn0 = ⟨writeRequest getRoot, [], [], false⟩ := by rw [← hs]; rfl
  let l : Exchange.Link UInt8 EchoAnswer := ⟨writeRequest getRoot, [⟨writeRequest getRoot, a⟩], a.bytes, false⟩
  have hserve : (s.links conn0).serve protocol a = some l := by
    have hdelimit : protocol.delimit (writeRequest getRoot) = some (writeRequest getRoot).length := by
      change Rfc9112.delimit (writeRequest getRoot) = _
      exact delimit_writeRequest oneLine_getRoot
    have hunanswered : (⟨writeRequest getRoot, [], [], false⟩ : Exchange.Link UInt8 EchoAnswer).unanswered =
        writeRequest getRoot := rfl
    simp only [Exchange.Link.serve, hlink, hunanswered, hdelimit, Option.map_some, List.take_length]
    rfl
  have hlen : 0 < hugeHead.bytes.length ∧ hugeHead.bytes.length ≤ a.bytes.length := by
    refine ⟨by decide, ?_⟩
    rw [EchoAnswer.bytes, ha, List.length_append]
    omega
  have htake : a.bytes.take hugeHead.bytes.length = hugeHead.bytes := by
    rw [EchoAnswer.bytes, ha, List.take_left]
  let l' : Exchange.Link UInt8 EchoAnswer := { l with flight := a.bytes.drop hugeHead.bytes.length }
  have hrecv : Exchange.conduct protocol (writeRequest getRoot) l (.reading []) (.recv hugeHead.bytes.length) =
      some (l', .returned hugeResponse) := by
    simp only [Exchange.conduct, l, l', hlen, and_self, if_true, htake, List.nil_append, readResponse_hugeHead,
      Exchange.outcome]
  let s₁ : Net Sys Conn UInt8 EchoAnswer Response := { s with links := Function.update s.links conn0 l }
  let s₂ : Net Sys Conn UInt8 EchoAnswer Response :=
    ⟨s.pool, Function.update s₁.links conn0 l', Function.update s.calls 0 (some ⟨conn0, 0, .returned hugeResponse⟩)⟩
  have hserved : Exchange.step pooling protocol (fun _ => getRoot) s (.serve conn0 a) = some s₁ := by
    rw [Exchange.step, hserve]
    rfl
  have hreturned : Exchange.step pooling protocol (fun _ => getRoot) s₁ (.call 0 (.recv hugeHead.bytes.length)) = some s₂ := by
    simp only [Exchange.step, s₁, huser, hcall, Function.update_self]
    rw [show protocol.encode getRoot = writeRequest getRoot from rfl, hrecv]
    rfl
  have hrun₁ := hrun.snoc trivial hserved
  have hrun₂ := hrun₁.snoc trivial hreturned
  refine ⟨_, s₂, hrun₂, ?_, ?_⟩
  · simp only [s₂, Function.update_self]
  · simp only [s₂, Function.update_self]
    rfl

/-- **The counter-example.**  The upstream answers a request with a body of `2 ^ 64` bytes.  `read_response` takes a length
that is no `usize` for a missing one: the call returns an empty body when it has read the head, and the connection goes back
to the pool with the body on it. -/
theorem huge_body_left_unread :
    ¬ ∀ (addr : String) (maxSize : ℕ) (reqs : ℕ → Request) (es : List (Exchange.Ev Ev Conn EchoAnswer))
      (t : Net Sys Conn UInt8 EchoAnswer Response), (∀ i, OneLine (reqs i)) →
      Run (Exchange.step pooling protocol reqs) Any (Net.new (Sys.new addr maxSize)) es t →
      Correct pooling protocol reqs Carries t := by
  intro h
  have hsole : soleLength hugeHead.fields = some (List.replicate (2 ^ 64) (0 : UInt8)).length := by
    rw [List.length_replicate]
    decide
  obtain ⟨es, t, hrun, hcall, hlog⟩ :=
    exists_run_hugeHead ⟨hugeHead, List.replicate (2 ^ 64) 0, by decide, hsole⟩ rfl
  obtain ⟨log, a, later, heq, -, -, hbody, -⟩ :=
    (h _ _ _ _ _ (fun _ => oneLine_getRoot) hrun).exchanged 0 _ _ hcall rfl
  simp only at heq hbody
  have ha : (⟨writeRequest getRoot, a⟩ : Exchange.Entry UInt8 EchoAnswer) ∈ (t.links conn0).log := by
    rw [heq]
    simp [protocol]
  rw [hlog, List.mem_singleton, Exchange.Entry.mk.injEq] at ha
  have hlen := congrArg List.length hbody
  rw [ha.2, List.length_replicate] at hlen
  simp [hugeResponse] at hlen

end ServiceProxy.Upstream
