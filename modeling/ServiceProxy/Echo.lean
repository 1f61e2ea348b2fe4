import ServiceProxy.EchoUpstream
import ServiceProxy.ProxyFields
import ServiceProxy.QuicStream
import ServiceProxy.Upstream.Answered

/-!
# Echoes over pooled connections (`grpc_proxy.rs`, `quic_proxy/mod.rs`)

The calls of `GrpcProxy::echo` and `handle_quic_stream` forward their payloads to an echo upstream, over the connections of its
pool.

* `grpcEcho` — `GrpcProxy::echo` on what it meets;
* `echoed_run` — in every run, a call that gets a response gets the echo of its own payload, and the identity of the upstream;
* `grpcEcho_run`, `quicEcho_run` — so does its client: no client sees the payload of another one.
-/

namespace ServiceProxy.Upstream

open ServiceProxy.Lib

/-! ## Looking up a header -/

/-- `headers.get(k)`. -/
def HeaderMap.lookup (k : List Char) (m : HeaderMap) : Option (List (List Char)) := (m.find? fun p => p.1 = k).map Prod.snd

theorem HeaderMap.getD_lookup (k : List Char) (m : HeaderMap) : (m.lookup k).getD [] = HeaderMap.get k m := by
  induction m with
  | nil => rfl
  | cons p m ih =>
    obtain ⟨k', vs⟩ := p
    unfold HeaderMap.lookup at ih ⊢
    by_cases hk : k' = k
    · simp [HeaderMap.get, hk]
    · simpa [HeaderMap.get, hk] using ih

/-- The texts of the fields with a name. -/
theorem map_valuesAt_fieldTexts {fs : List Rfc9112.Field} {ps : List (List Char × List Char)} (hps : fieldTexts fs = some ps)
    (k : List Char) : (valuesAt k ps).map some =
      ((fs.filter fun f => f.name = k).map Rfc9112.Field.value).map fun v => (utf8Decode v).map trim := by
  induction fs generalizing ps with
  | nil =>
    obtain rfl : [] = ps := by simpa [fieldTexts] using hps
    rfl
  | cons f fs ih =>
    simp only [fieldTexts, Option.bind_eq_some_iff, Option.map_eq_some_iff] at hps
    obtain ⟨v, hv, ps, hps, rfl⟩ := hps
    unfold valuesAt at ih ⊢
    by_cases hk : f.name = k
    · rw [List.filter_cons_of_pos (by simpa using hk), List.filter_cons_of_pos (by simpa using hk)]
      simp only [List.map_cons, ih hps, hv, Option.map_some]
    · rw [List.filter_cons_of_neg (by simpa using hk), List.filter_cons_of_neg (by simpa using hk), ih hps]

end ServiceProxy.Upstream

namespace ServiceProxy.Echo

open ServiceProxy.Lib ServiceProxy.Upstream ServiceProxy.ProxyHttp ServiceProxy.QuicProxy
open ServiceProxy.EchoUpstream (Sends Echoes echoBody upstreamIdKey)
open ServiceProxy.Lib.Exchange (Net HandsOn handsOn_of_returned)

/-! ## The code -/

/-- `EchoResponse`. -/
structure EchoResponse where
  payload : List UInt8
  upstreamId : List Char
  deriving DecidableEq, Repr

/-- `Display` of an `UpstreamError`, by that of its source. -/
def display (io : IoError → List Char) : UpstreamError → List Char
  | .dial e => "dial: ".toList ++ io e
  | .io e => "io: ".toList ++ io e
  | .parse msg => "parse: ".toList ++ msg

/-- The identity that a response carries. -/
def upstreamIdOf (resp : Response) : List Char :=
  (((resp.headers.lookup "X-Upstream-Id".toList).or (resp.headers.lookup "X-Upstream-ID".toList)).bind List.head?).getD []

/-- `GrpcProxy::echo`, when the selector returns `addr` and `tok`.  The error is the message of `Status::unavailable`. -/
def grpcEcho (io : IoError → List Char) (kind : ForwarderKind) (addr : String) (tok : ℤ) (peer : Peer)
    (payload : List UInt8) : List Effect × Except (Halt (List Char)) EchoResponse :=
  match kind.forward addr (echoRequest addr payload) peer with
  | (fx, .ok resp) =>
    (.next tok :: (fx ++ [.release tok]), .ok { payload := resp.body, upstreamId := upstreamIdOf resp })
  | (fx, .error (.err e)) =>
    (.next tok :: (fx ++ [.release tok]),
      .error (.err ("forward to ".toList ++ addr.toList ++ ": ".toList ++ display io e)))
  | (fx, .error .pending) => (.next tok :: fx, .error .pending)
  | (fx, .error .panic) => (.next tok :: fx, .error .panic)

/-! ## The request -/

section Request

variable {addr : String} {payload : List UInt8}

/-- The address can stand on a field line. -/
def Writable (addr : String) : Prop := (utf8Encode addr.toList).all Rfc9112.isFieldByte

instance (addr : String) : Decidable (Writable addr) := inferInstanceAs (Decidable (_ = true))

theorem sendable_echoRequest (haddr : Writable addr) (payload : List UInt8) :
    SendableRequest (echoRequest addr payload) where
  method_ne := show "POST".toList ≠ [] by decide
  path_ne := show "/echo".toList ≠ [] by decide
  method := show "POST".toList.all Rfc9112.isToken by decide
  path := show "/echo".toList.all Rfc9112.isVisible by decide
  host := haddr
  headers := by
    intro k vs hmem v hv
    obtain ⟨rfl, rfl⟩ := Prod.mk.inj (List.mem_singleton.1 hmem)
    obtain rfl := List.mem_singleton.1 hv
    exact ⟨by decide, by decide, by decide⟩

theorem oneLine_echoRequest (haddr : Writable addr) (payload : List UInt8) : OneLine (echoRequest addr payload) := by
  refine (sendable_echoRequest haddr payload).oneLine fun k vs hmem => ?_
  obtain ⟨-, rfl⟩ := Prod.mk.inj (List.mem_singleton.1 hmem)
  exact List.cons_ne_nil _ _

/-- **The upstream reads the payload.** -/
theorem readRequest_echoRequest (haddr : Writable addr) (payload : List UInt8) :
    Rfc9112.readRequest (writeRequest (echoRequest addr payload)) =
      .complete ⟨"POST".toList, "/echo".toList, payload⟩ [] := by
  refine readRequest_writeRequest (sendable_echoRequest haddr payload) fun k vs hmem hk => ?_
  obtain ⟨rfl, -⟩ := Prod.mk.inj (List.mem_singleton.1 hmem)
  exact absurd hk (by decide)

end Request

/-! ## The echo of a payload -/

/-- **The response is the echo of the payload**, from the upstream with this identity. -/
structure Echoed (upstreamID : List Char) (payload : List UInt8) (resp : Response) : Prop where
  status : resp.statusCode = 200
  body : resp.body = echoBody payload
  identity : upstreamIdOf resp = upstreamID

section Echoed

variable {upstreamID : List Char} {header : Go.Header} {payload : List UInt8} {a : EchoAnswer} {resp : Response}

theorem lookup_of_carries (h : Carries a resp) (k : List Char) :
    ((resp.headers.lookup k).getD []).map some =
      ((a.head.fields.filter fun f => f.name = k).map Rfc9112.Field.value).map fun v => (utf8Decode v).map trim := by
  obtain ⟨-, -, ps, hps, hheaders⟩ := h
  have hnil : HeaderMap.get k [] = [] := rfl
  rw [HeaderMap.getD_lookup, hheaders, HeaderMap.get_pushAll, hnil, List.nil_append, map_valuesAt_fieldTexts hps]

theorem lookup_eq_nil (hs : Sends (EchoUpstream.echo (utf8Encode upstreamID) header (some payload)) a.head a.body)
    (h : Carries a resp) {k : List Char} (hown : k ∉ EchoUpstream.ownFields) (hk : upstreamID ≠ [] → k ≠ upstreamIdKey) :
    (resp.headers.lookup k).getD [] = [] := by
  have hnil : (a.head.fields.filter fun f => f.name = k) = [] := by
    rw [List.filter_eq_nil_iff]
    intro f hf hname
    obtain rfl : f.name = k := by simpa using hname
    rcases hs.rest f hf with hmem | hmem
    · exact hown hmem
    · obtain ⟨p, hp, hpk⟩ := List.mem_map.1 hmem
      rcases EchoUpstream.mem_echo_header hp with htype | ⟨hid, hidentity⟩
      · rw [hpk] at htype
        rw [htype] at hown
        exact hown (by decide)
      · rw [hidentity] at hpk
        have hne : upstreamID ≠ [] := by
          rintro rfl
          exact hid rfl
        exact hk hne hpk.symm
  have hget := lookup_of_carries h k
  rw [hnil] at hget
  exact List.map_eq_nil_iff.1 hget

/-- **What the server sends is read as the echo.** -/
theorem echoed_of_carries (htrim : trim upstreamID = upstreamID)
    (hs : Sends (EchoUpstream.echo (utf8Encode upstreamID) header (some payload)) a.head a.body) (h : Carries a resp) :
    Echoed upstreamID payload resp := by
  obtain ⟨hstatus, hbody⟩ := EchoUpstream.echo_some (utf8Encode upstreamID) header payload
  refine ⟨(h.1.trans hs.status).trans hstatus, (h.2.1.trans hs.body).trans hbody, ?_⟩
  by_cases hid : upstreamID = []
  · -- no field carries an identity
    have hfirst := lookup_eq_nil hs h (k := "X-Upstream-Id".toList) (by decide) fun hne => absurd hid hne
    have hsecond := lookup_eq_nil hs h (k := "X-Upstream-ID".toList) (by decide) fun hne => absurd hid hne
    unfold upstreamIdOf
    rw [hid]
    cases hget : resp.headers.lookup "X-Upstream-Id".toList with
    | none =>
      cases hget' : resp.headers.lookup "X-Upstream-ID".toList with
      | none => rfl
      | some vs =>
        rw [hget', Option.getD_some] at hsecond
        rw [hsecond]
        rfl
    | some vs =>
      rw [hget, Option.getD_some] at hfirst
      rw [hfirst]
      rfl
  · -- one field does
    have hne : utf8Encode upstreamID ≠ [] := fun hnil => hid (utf8Encode_eq_nil.1 hnil)
    have hvalues := lookup_of_carries h upstreamIdKey
    rw [hs.fields _ (EchoUpstream.echo_upstreamId hne)] at hvalues
    simp only [List.map_cons, List.map_nil, utf8Decode_utf8Encode, Option.map_some, htrim] at hvalues
    obtain ⟨v, hv, hsome⟩ := List.map_eq_singleton_iff.1 hvalues
    obtain rfl := Option.some.inj hsome
    unfold upstreamIdOf
    have hkey : "X-Upstream-Id".toList = upstreamIdKey := rfl
    rw [hkey]
    cases hget : resp.headers.lookup upstreamIdKey with
    | none =>
      rw [hget] at hv
      cases hv
    | some vs =>
      rw [hget, Option.getD_some] at hv
      rw [hv]
      rfl

end Echoed

/-! ## The stream of a client -/

section Stream

variable {q : QuicTalk} {payload : List UInt8} {r : Stream UInt8}

/-- **What is on a stream that `handle_quic_stream` has served**: nothing, or a part of the frame of a response, and all of it
if the stream was finished. -/
theorem written_handleQuicStream (kind : ForwarderKind) (hread : readFrame q.recv.1 = .ok (payload, r)) (hnew : q.send.written = [])
    (hopen : q.send.finished = false) :
    ((handleQuicStream kind q).send.written = [] ∧ (handleQuicStream kind q).send.finished = false) ∨
      ∃ resp, (kind.forward q.addr (echoRequest q.addr payload) q.peer).2 = .ok resp ∧
        (handleQuicStream kind q).send.written <+: writeFrame resp.body ∧
        ((handleQuicStream kind q).send.finished = true →
          (handleQuicStream kind q).send.written = writeFrame resp.body) := by
  unfold handleQuicStream
  rw [hread]
  rcases hx : kind.forward q.addr (echoRequest q.addr payload) q.peer with ⟨fx, x⟩
  simp only [hx]
  cases x with
  | error a => cases a <;> exact .inl ⟨hnew, hopen⟩
  | ok resp =>
    refine .inr ⟨resp, rfl, ?_⟩
    have hkeep := finished_writeFrame resp.body q.send
    obtain ⟨part, hpart, hwrote⟩ := wrote_writeFrame resp.body q.send
    rcases hwrite : q.send.writeFrame resp.body with ⟨y, w⟩
    rw [hwrite] at hkeep hwrote
    change w.finished = _ at hkeep
    change w.written = _ at hwrote
    rw [hnew, List.nil_append] at hwrote
    rw [hopen] at hkeep
    subst hwrote
    cases y with
    | error a =>
      -- the stream stays open
      cases a <;> simp only [hwrite] <;>
        exact ⟨hpart, fun hfinished => absurd (hkeep.symm.trans hfinished) Bool.false_ne_true⟩
    | ok u =>
      have hok : (q.send.writeFrame resp.body).1 = .ok () := by rw [hwrite]
      have hwritten := written_writeFrame hok
      rw [hwrite, hnew, List.nil_append] at hwritten
      simp only [hwrite]
      exact ⟨hpart, fun _ => hwritten⟩

end Stream

/-! ## Runs -/

/-- The upstream is the echo upstream with this identity, and its answers are short. -/
abbrev EchoServer (upstreamID : List Char) : Net Sys Conn UInt8 EchoAnswer Response → Exchange.Ev Ev Conn EchoAnswer → Prop :=
  ServedBy fun msg a => Echoes (utf8Encode upstreamID) msg a.head a.body

section Run

variable {addr : String} {maxSize : ℕ} {upstreamID : List Char} {payloads : ℕ → List UInt8}
  {es : List (Exchange.Ev Ev Conn EchoAnswer)} {t : Net Sys Conn UInt8 EchoAnswer Response}

/-- **Every call gets the echo of its own payload**, in any interleaving of any number of calls on one pool. -/
theorem echoed_run (haddr : Writable addr) (htrim : trim upstreamID = upstreamID)
    (h : Run (Exchange.step pooling protocol fun i => echoRequest addr (payloads i)) (EchoServer upstreamID)
      (Net.new (Sys.new addr maxSize)) es t) {i : ℕ} {call : Exchange.Call Conn UInt8 Response} {resp : Response}
    (hcall : t.calls i = some call) (hr : call.phase = .returned resp) : Echoed upstreamID (payloads i) resp := by
  obtain ⟨a, hechoes, hcarries⟩ := forward_pooled_answered (fun i => oneLine_echoRequest haddr (payloads i)) h hcall hr
  exact echoed_of_carries htrim (hechoes.sends _ _ (readRequest_echoRequest haddr (payloads i)) rfl rfl) hcarries

/-- **gRPC clients are told apart.**  Any number of calls of `GrpcProxy::echo` on one pool, the `i`-th with the payload
`payloads i`, in any interleaving, with any segments and any failures: what a call returns is the echo of its own payload, and
the identity of the upstream. -/
theorem grpcEcho_run (haddr : Writable addr) (htrim : trim upstreamID = upstreamID)
    (h : Run (Exchange.step pooling protocol fun i => echoRequest addr (payloads i)) (EchoServer upstreamID)
      (Net.new (Sys.new addr maxSize)) es t) {i : ℕ} (io : IoError → List Char) {kind : ForwarderKind} {peer : Peer}
    (hforward : HandsOn t i (kind.forward addr (echoRequest addr (payloads i)) peer).2) (tok : ℤ) {r : EchoResponse}
    (hr : (grpcEcho io kind addr tok peer (payloads i)).2 = .ok r) : r = ⟨echoBody (payloads i), upstreamID⟩ := by
  unfold grpcEcho at hr
  rcases hx : kind.forward addr (echoRequest addr (payloads i)) peer with ⟨fx, x⟩
  rw [hx] at hforward hr
  cases x with
  | error a => cases a <;> cases hr
  | ok resp =>
    obtain ⟨call, hcall, hphase⟩ := hforward resp rfl
    obtain ⟨-, hbody, hidentity⟩ := echoed_run haddr htrim h hcall hphase
    obtain rfl := Except.ok.inj hr
    rw [hbody, hidentity]

theorem length_echoBody {payload : List UInt8} (h : payload.length < 2 ^ 32) : (echoBody payload).length < 2 ^ 32 := by
  unfold echoBody
  split_ifs
  · decide
  · exact h

/-- **QUIC clients are told apart.**  Any number of streams that `handle_quic_stream` serves over one pool, the `i`-th with a
frame of the payload `payloads i`, in any interleaving, with any segments and any failures: what a client reads from its stream
as a frame is the echo of its own payload; and when its stream was finished, it reads it, and nothing is behind it. -/
theorem quicEcho_run (haddr : Writable addr) (htrim : trim upstreamID = upstreamID)
    (h : Run (Exchange.step pooling protocol fun i => echoRequest addr (payloads i)) (EchoServer upstreamID)
      (Net.new (Sys.new addr maxSize)) es t) {i : ℕ} {kind : ForwarderKind} {q : QuicTalk} (hq : q.addr = addr)
    (hpayload : (payloads i).length < 2 ^ 32) (hrecv : q.recv.1.flat = goWriteFrame (payloads i))
    (hforward : HandsOn t i (kind.forward addr (echoRequest addr (payloads i)) q.peer).2) (hnew : q.send.written = [])
    (hopen : q.send.finished = false) {r : Stream UInt8} (hr : ∀ seg ∈ r.segs, seg ≠ [])
    (hflat : r.flat = (handleQuicStream kind q).send.written) :
    (∀ p r', readFrame r = .ok (p, r') → p = echoBody (payloads i)) ∧
      ((handleQuicStream kind q).send.finished = true →
        ∃ r', readFrame r = .ok (echoBody (payloads i), r') ∧ goReadFrame r = .ok (echoBody (payloads i), r') ∧
          r'.flat = []) := by
  subst hq
  obtain ⟨s, hread, -⟩ : ∃ s, readFrame q.recv.1 = .ok (payloads i, s) ∧ s.flat = [] :=
    (readFrame_eq_ok q.recv.2).2 ⟨hpayload, by rw [hrecv, List.append_nil]; rfl⟩
  have hlen := length_echoBody hpayload
  rcases written_handleQuicStream kind hread hnew hopen with ⟨hnone, hstill⟩ | ⟨resp, hresp, hpart, hall⟩
  · -- nothing was written
    rw [hnone] at hflat
    refine ⟨fun p r' h => eq_of_readFrame hlen List.nil_prefix hr hflat h, fun hfinished => ?_⟩
    rw [hstill] at hfinished
    cases hfinished
  · obtain ⟨call, hcall, hphase⟩ := hforward resp hresp
    obtain ⟨-, hbody, -⟩ := echoed_run haddr htrim h hcall hphase
    rw [hbody] at hpart hall
    refine ⟨fun p r' h => eq_of_readFrame hlen hpart hr hflat h, fun hfinished => ?_⟩
    obtain ⟨r', hr', hrest⟩ : ∃ r', readFrame r = .ok (echoBody (payloads i), r') ∧ r'.flat = [] :=
      (readFrame_eq_ok hr).2 ⟨hlen, by rw [hflat, hall hfinished, List.append_nil]⟩
    exact ⟨r', hr', goReadFrame_ok_iff.2 hr', hrest⟩

end Run

/-! ## A run -/

/-- `HTTP/1.1 200 OK` from the upstream `a`, with the type `type` and a body whose length has these digits. -/
def echoHead (type : List Char) (digits : List Char) (htype : (utf8Encode type).all Rfc9112.isFieldByte)
    (hdigits : (utf8Encode digits).all Rfc9112.isFieldByte) : Rfc9112.StatusHead :=
  { Rfc9112.okHead (Rfc9112.lengthField digits hdigits) with
    fields :=
      [(show Sendable upstreamIdKey ['a'] from ⟨by decide, by decide, by decide⟩).field,
        (show Sendable "Content-Type".toList type from ⟨by decide, by decide, htype⟩).field,
        Rfc9112.lengthField digits hdigits] }

def hiAnswer : EchoAnswer where
  head := echoHead "application/octet-stream".toList ['2'] (by decide) (by decide)
  body := [104, 105]
  status := by decide
  framed := by decide

def echoOkAnswer : EchoAnswer where
  head := echoHead "text/plain".toList ['8'] (by decide) (by decide)
  body := utf8Encode "echo-ok\n".toList
  status := by decide
  framed := by decide

/-- The payload `hi`, and empty ones. -/
def hiThenEmpty (i : ℕ) : List UInt8 := if i = 0 then [104, 105] else []

def echoing : List (Exchange.Ev Ev Conn EchoAnswer) :=
  [.pool .call, .pool (.run 0 .lock), .pool (.run 0 .fetchAdd), .pool (.run 0 .dialOk), .start 0,
    .call 0 (.write (writeRequest (echoRequest "u:1" [104, 105])).length), .call 0 .flush, .serve conn0 hiAnswer,
    .call 0 (.recv 10), .call 0 (.recv (hiAnswer.bytes.length - 10)), .done 0, .pool (.run 0 .lock),
    .pool (.notify 0 none), .pool .call, .pool (.run 1 .lock), .start 1,
    .call 1 (.write (writeRequest (echoRequest "u:1" [])).length), .call 1 .flush, .serve conn0 echoOkAnswer,
    .call 1 (.recv echoOkAnswer.bytes.length)]

def echoResponse (a : EchoAnswer) (type digits : List Char) : Response :=
  { statusCode := 200
    headers := [(upstreamIdKey, [['a']]), ("Content-Type".toList, [type]), ("Content-Length".toList, [digits])]
    body := a.body }

theorem run_echoing : ∃ t, Run (Exchange.step pooling protocol fun i => echoRequest "u:1" (hiThenEmpty i))
    (EchoServer ['a']) (Net.new (Sys.new "u:1" 1)) echoing t ∧
      (t.calls 0).map (fun call => call.phase) =
        some (.returned (echoResponse hiAnswer "application/octet-stream".toList ['2'])) ∧
      (t.calls 1).map (fun call => call.phase) = some (.returned (echoResponse echoOkAnswer "text/plain".toList ['8'])) := by
  have hexec : (exec (Exchange.step pooling protocol fun i => echoRequest "u:1" (hiThenEmpty i)) (EchoServer ['a'])
      (Net.new (Sys.new "u:1" 1)) echoing).map
        (fun t => ((t.calls 0).map (fun call => call.phase), (t.calls 1).map fun call => call.phase)) =
      some (some (.returned (echoResponse hiAnswer "application/octet-stream".toList ['2'])),
        some (.returned (echoResponse echoOkAnswer "text/plain".toList ['8']))) := by
    decide +kernel
  obtain ⟨t, ht, hphases⟩ := Option.map_eq_some_iff.1 hexec
  obtain ⟨hfirst, hsecond⟩ := Prod.mk.inj hphases
  exact ⟨t, Run.of_exec ht, hfirst, hsecond⟩

def arrived (a : EchoAnswer) (h : a.bytes ≠ []) : Peer :=
  .conn conn0 .done ⟨⟨[a.bytes], .open⟩, fun seg hseg => by rwa [List.mem_singleton.1 hseg]⟩

/-- The second call, over gRPC. -/
theorem grpcEcho_run_empty : ∃ r,
    (grpcEcho (fun _ => []) .dial "u:1" 0 (arrived echoOkAnswer (by decide)) (hiThenEmpty 1)).2 = .ok r ∧
      r = ⟨utf8Encode "echo-ok\n".toList, ['a']⟩ := by
  obtain ⟨t, hrun, -, hphase⟩ := run_echoing
  have hforward : (ForwarderKind.dial.forward "u:1" (echoRequest "u:1" (hiThenEmpty 1))
      (arrived echoOkAnswer (by decide))).2 = .ok (echoResponse echoOkAnswer "text/plain".toList ['8']) := by
    decide +kernel
  have hr : (grpcEcho (fun _ => []) .dial "u:1" 0 (arrived echoOkAnswer (by decide)) (hiThenEmpty 1)).2 =
      .ok ⟨echoOkAnswer.body, ['a']⟩ := by
    decide +kernel
  exact ⟨_, hr, grpcEcho_run (by decide) (by decide) hrun _ (handsOn_of_returned hforward hphase) 0 hr⟩

/-- The first call, over a stream with the payload `hi`. -/
def hiTalk : QuicTalk :=
  { recv := ⟨⟨[goWriteFrame [104, 105]], .eof⟩, by decide⟩, addr := "u:1", tok := 0
    peer := arrived hiAnswer (by decide), send := .new }

theorem handleQuicStream_hiTalk : (handleQuicStream .dial hiTalk).send.finished = true ∧
    (handleQuicStream .dial hiTalk).send.written = [0, 0, 0, 2, 104, 105] := by
  decide +kernel

def hiReceived : Stream UInt8 := ⟨[[0, 0, 0, 2], [104, 105]], .eof⟩

theorem quicEcho_run_hi : ∃ r', readFrame hiReceived = .ok ([104, 105], r') ∧
    goReadFrame hiReceived = .ok ([104, 105], r') ∧ r'.flat = [] := by
  obtain ⟨t, hrun, hphase, -⟩ := run_echoing
  have hforward : (ForwarderKind.dial.forward "u:1" (echoRequest "u:1" (hiThenEmpty 0)) hiTalk.peer).2 =
      .ok (echoResponse hiAnswer "application/octet-stream".toList ['2']) := by
    decide +kernel
  obtain ⟨hfinished, hwritten⟩ := handleQuicStream_hiTalk
  have hflat : hiReceived.flat = (handleQuicStream .dial hiTalk).send.written := by
    rw [hwritten]
    decide
  have hsegs : ∀ seg ∈ hiReceived.segs, seg ≠ [] := by decide
  have hrecv : hiTalk.recv.1.flat = goWriteFrame (hiThenEmpty 0) := by decide
  exact (quicEcho_run (by decide) (by decide) hrun rfl (by decide) hrecv (handsOn_of_returned hforward hphase) rfl rfl hsegs
    hflat).2 hfinished

end ServiceProxy.Echo
