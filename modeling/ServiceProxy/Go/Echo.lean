import ServiceProxy.Echo
import ServiceProxy.Go.Transparent

/-!
# Echoes over pooled connections in Go (`grpcproxy/server.go`, `quicproxy/server.go`)

The calls of `Echo` and `handleStream` forward their payloads to an echo upstream, over the connections of its pool.

* `Server.echo`, `handleStream` — the two handlers on what they meet;
* `ReadsField` — what is assumed of the library on the field that carries the identity of the upstream;
* `serverEcho_run`, `streamEcho_run` — in every run, no client sees the payload of another one; what a call took is given back
  however it ends, and its stream is finished.
-/

namespace ServiceProxy.Go

open ServiceProxy.Lib
open ServiceProxy.Echo (Writable length_echoBody)
open ServiceProxy.EchoUpstream (Sends Echoes echoBody upstreamIdKey)
open ServiceProxy.Lib.Exchange (Net HandsOn handsOn_of_returned)
open ServiceProxy.Lib.Rfc9112 (StatusHead Field trimBlank)
open ServiceProxy.ProxyHttp (Source)
open ServiceProxy.QuicProxy (Sink goReadFrame goWriteFrame writeFrame)

/-! ## The code -/

/-- The request that both handlers forward. -/
def echoRequest (addr : String) (payload : List UInt8) : Request where
  method := "POST".toList
  path := utf8Encode "/echo".toList
  host := utf8Encode addr.toList
  header := [("Content-Type".toList, [utf8Encode "application/octet-stream".toList])]
  body := payload

/-- `EchoResponse`. -/
structure EchoResponse where
  payload : List UInt8
  upstreamId : List UInt8
  deriving DecidableEq, Repr

/-- `Echo`, when the selector returns `addr` and `tok`.  The error is the message of `codes.Unavailable`. -/
def Server.echo {β : Type} (net : NetHttp β) (text : IoError → List UInt8) (f : Forwarder) (addr : String) (tok : ℤ)
    (peer : Peer) (payload : List UInt8) : Acting (List UInt8) EchoResponse :=
  deferring (.release tok) <|
    match f.forward net addr (echoRequest addr payload) peer with
    | (fx, .ok resp) =>
      (.next tok :: fx, .ok { payload := resp.body, upstreamId := Header.get "X-Upstream-Id".toList resp.header })
    | (fx, .error (.err e)) =>
      (.next tok :: fx, .error (.err (utf8Encode ("forward to ".toList ++ addr.toList ++ ": ".toList) ++ text e)))
    | (fx, .error .pending) => (.next tok :: fx, .error .pending)
    | (fx, .error .panic) => (.next tok :: fx, .error .panic)

/-- What a call of `handleStream` meets.  The selector returns `addr` and `tok`. -/
structure StreamTalk where
  recv : Source
  addr : String
  tok : ℤ
  peer : Peer
  send : Sink

/-- What a call of `handleStream` did and how it ended, its stream, and whether it has called `CancelRead`. -/
structure Served where
  effects : List Effect
  result : Except (Halt IoError) Unit
  send : Sink
  cancelled : Bool

def logged {ε : Type} : Except (Halt ε) Unit → Except (Halt IoError) Unit
  | .ok () | .error (.err _) => .ok ()
  | .error .pending => .error .pending
  | .error .panic => .error .panic

/-- The deferred `CancelRead(0)` and `Close`. -/
def closing (x : Acting IoError Unit) (send : Sink) : Served :=
  match x.2 with
  | .error .pending => ⟨x.1, x.2, send, false⟩
  | _ => ⟨x.1, x.2, { send with finished := true }, true⟩

/-- `handleStream` from `selector.Next()` on, up to its deferred calls. -/
def serveFrame {β : Type} (net : NetHttp β) (f : Forwarder) (q : StreamTalk) (payload : List UInt8) :
    Acting IoError Unit × Sink :=
  match f.forward net q.addr (echoRequest q.addr payload) q.peer with
  | (fx, .ok resp) => ((.next q.tok :: fx, logged (q.send.goWriteFrame resp.body).1), (q.send.goWriteFrame resp.body).2)
  | (fx, .error a) => ((.next q.tok :: fx, logged (.error a)), q.send)

/-- `handleStream`. -/
def handleStream {β : Type} (net : NetHttp β) (f : Forwarder) (q : StreamTalk) : Served :=
  match goReadFrame q.recv.1 with
  | .error a => closing ([], logged (.error a)) q.send
  | .ok (payload, _) =>
    closing (deferring (.release q.tok) (serveFrame net f q payload).1) (serveFrame net f q payload).2

/-! ## The request -/

section Request

variable {addr : String}

theorem sendable_echoRequest (haddr : Writable addr) (payload : List UInt8) :
    SendableRequest (echoRequest addr payload) "/echo".toList where
  method_ne := show "POST".toList ≠ [] by decide
  method := show "POST".toList.all Rfc9112.isToken by decide
  target_ne := show "/echo".toList ≠ [] by decide
  visible := show "/echo".toList.all Rfc9112.isVisible by decide
  path := rfl
  host := haddr
  header := by
    refine ⟨fun k vs hmem => ?_, fun k vs hmem v hv => ?_⟩
    · obtain ⟨rfl, -⟩ := Prod.mk.inj (List.mem_singleton.1 hmem)
      decide
    · obtain ⟨-, rfl⟩ := Prod.mk.inj (List.mem_singleton.1 hmem)
      obtain rfl := List.mem_singleton.1 hv
      decide

/-- **The upstream reads the payload.** -/
theorem readRequest_echoRequest (haddr : Writable addr) (payload : List UInt8) :
    Rfc9112.readRequest (writeRequest (echoRequest addr payload)) =
      .complete ⟨"POST".toList, "/echo".toList, payload⟩ [] := by
  refine readRequest_writeRequest (sendable_echoRequest haddr payload) fun k vs hmem hk => ?_
  obtain ⟨rfl, -⟩ := Prod.mk.inj (List.mem_singleton.1 hmem)
  exact absurd hk (by decide)

end Request

/-! ## One field of an answer -/

/-- The first value of the field with the key `k`. -/
def fieldValue (k : List Char) (h : StatusHead) : List UInt8 :=
  (((h.fields.filter fun f => canonicalMIMEHeaderKey f.name = k).map fun f => trimBlank f.value).head?).getD []

/-- **What is assumed of `http.ReadResponse`** on the field `k`, which it does not interpret. -/
structure ReadsField {β : Type} (net : NetHttp β) (k : List Char) : Prop where
  get : ∀ {h : StatusHead} {segs : List (List UInt8)} {more rest : List UInt8} {e : Ending} {resp : Response} {left : List UInt8},
    (∀ seg ∈ segs, seg ≠ []) → segs.flatten ++ more = h.bytes ++ rest → readResponse net ⟨segs, e⟩ = .ok (resp, left) →
    Header.get k resp.header = fieldValue k h

/-! ## The echo of a payload -/

section Echoed

variable {upstreamID : List UInt8} {header : Header} {payload : List UInt8} {head : StatusHead} {body : List UInt8}

theorem name_of_sends (hs : Sends (EchoUpstream.echo upstreamID header (some payload)) head body) {f : Field}
    (hf : f ∈ head.fields) (hkey : canonicalMIMEHeaderKey f.name = upstreamIdKey) : f.name = upstreamIdKey ∧ upstreamID ≠ [] := by
  rcases hs.rest f hf with hown | hset
  · have hnone : ∀ n ∈ EchoUpstream.ownFields, canonicalMIMEHeaderKey n ≠ upstreamIdKey := by decide
    exact absurd hkey (hnone _ hown)
  · obtain ⟨p, hp, hpk⟩ := List.mem_map.1 hset
    rcases EchoUpstream.mem_echo_header hp with htype | ⟨hid, rfl⟩
    · rw [← hpk, htype] at hkey
      exact absurd hkey (by decide)
    · exact ⟨hpk.symm, hid⟩

/-- **The identity that is read is the one of the upstream.** -/
theorem fieldValue_of_sends (htrim : trimBlank upstreamID = upstreamID)
    (hs : Sends (EchoUpstream.echo upstreamID header (some payload)) head body) :
    fieldValue upstreamIdKey head = upstreamID := by
  have hfilter : (head.fields.filter fun f => canonicalMIMEHeaderKey f.name = upstreamIdKey) =
      head.fields.filter fun f => f.name = upstreamIdKey := by
    refine List.filter_congr fun f hf => ?_
    refine decide_eq_decide.2 ⟨fun hkey => (name_of_sends hs hf hkey).1, fun hname => ?_⟩
    rw [hname]
    decide
  unfold fieldValue
  by_cases hid : upstreamID = []
  · have hnil : (head.fields.filter fun f => canonicalMIMEHeaderKey f.name = upstreamIdKey) = [] := by
      refine List.filter_eq_nil_iff.2 fun f hf hkey => ?_
      exact (name_of_sends hs hf (of_decide_eq_true hkey)).2 hid
    rw [hnil, hid]
    rfl
  · have hvalues := hs.fields _ (EchoUpstream.echo_upstreamId hid)
    obtain ⟨f, hf, hvalue⟩ := List.map_eq_singleton_iff.1 hvalues
    rw [hfilter, hf, List.map_singleton, hvalue, htrim]
    rfl

end Echoed

/-! ## The stream of a client -/

section Stream

variable {β : Type} {net : NetHttp β} {f : Forwarder} {q : StreamTalk} {payload : List UInt8} {r : Stream UInt8}

theorem closing_eq (x : Acting IoError Unit) (w : Sink) :
    (closing x w).effects = x.1 ∧ (closing x w).result = x.2 ∧ (closing x w).send.written = w.written ∧
      (x.2 ≠ .error .pending → (closing x w).send.finished = true ∧ (closing x w).cancelled = true) := by
  unfold closing
  split
  · rename_i hpending
    exact ⟨rfl, rfl, rfl, fun h => absurd hpending h⟩
  · exact ⟨rfl, rfl, rfl, fun _ => ⟨rfl, rfl⟩⟩

theorem serveFrame_over (hover : (serveFrame net f q payload).1.2 ≠ .error .pending) :
    (f.forward net q.addr (echoRequest q.addr payload) q.peer).2 ≠ .error .pending ∧
      ((serveFrame net f q payload).1.2 = .ok () →
        (f.forward net q.addr (echoRequest q.addr payload) q.peer).2 ≠ .error .panic) := by
  unfold serveFrame at hover ⊢
  rcases hx : f.forward net q.addr (echoRequest q.addr payload) q.peer with ⟨fx, x⟩
  rw [hx] at hover
  cases x with
  | ok resp => exact ⟨nofun, fun _ => nofun⟩
  | error a =>
    cases a with
    | err e => exact ⟨nofun, fun _ => nofun⟩
    | pending => exact absurd rfl hover
    | panic => exact ⟨nofun, nofun⟩

theorem effects_serveFrame (net : NetHttp β) (f : Forwarder) (q : StreamTalk) (payload : List UInt8) :
    (serveFrame net f q payload).1.1 =
      .next q.tok :: (f.forward net q.addr (echoRequest q.addr payload) q.peer).1 := by
  unfold serveFrame
  rcases f.forward net q.addr (echoRequest q.addr payload) q.peer with ⟨fx, x⟩
  cases x <;> rfl

/-- **What a call took it has given back** when it is over. -/
theorem settled_handleStream (hread : goReadFrame q.recv.1 = .ok (payload, r))
    (hover : (handleStream net f q).result ≠ .error .pending) :
    Released (handleStream net f q).effects ∧
      ((handleStream net f q).result = .ok () → PutBack (handleStream net f q).effects) ∧
      (handleStream net f q).send.finished = true ∧ (handleStream net f q).cancelled = true := by
  unfold handleStream at hover ⊢
  rw [hread] at hover ⊢
  obtain ⟨heffects, hresult, -, hclosed⟩ :=
    closing_eq (deferring (.release q.tok) (serveFrame net f q payload).1) (serveFrame net f q payload).2
  simp only [hresult, heffects, deferring_snd] at hover hclosed ⊢
  obtain ⟨hpending, hpanic⟩ := serveFrame_over hover
  obtain ⟨hreleased, -, hput⟩ := (forwarded net f q.addr (echoRequest q.addr payload) q.peer).settled hpending q.tok []
  rw [deferring_fst _ hover, effects_serveFrame]
  exact ⟨hreleased, fun hok => hput (hpanic hok), hclosed hover⟩

/-- **What is on a stream that `handleStream` serves**: nothing, or a part of the frame of a response. -/
theorem written_handleStream (hread : goReadFrame q.recv.1 = .ok (payload, r)) (hnew : q.send.written = []) :
    (handleStream net f q).send.written = [] ∧
        (∀ resp, (f.forward net q.addr (echoRequest q.addr payload) q.peer).2 ≠ .ok resp) ∨
      ∃ resp, (f.forward net q.addr (echoRequest q.addr payload) q.peer).2 = .ok resp ∧
        (handleStream net f q).send.written <+: writeFrame resp.body ∧
        ((q.send.goWriteFrame resp.body).1 = .ok () → (handleStream net f q).send.written = writeFrame resp.body) := by
  unfold handleStream
  rw [hread]
  obtain ⟨-, -, hwritten, -⟩ :=
    closing_eq (deferring (.release q.tok) (serveFrame net f q payload).1) (serveFrame net f q payload).2
  simp only [hwritten]
  unfold serveFrame
  rcases f.forward net q.addr (echoRequest q.addr payload) q.peer with ⟨fx, x⟩
  cases x with
  | error a => exact .inl ⟨hnew, nofun⟩
  | ok resp =>
    refine .inr ⟨resp, rfl, ?_, fun hok => ?_⟩
    · obtain ⟨part, hpart, hwrote⟩ := QuicProxy.wrote_goWriteFrame resp.body q.send
      rw [hnew, List.nil_append] at hwrote
      exact hwrote.symm ▸ hpart
    · have hall := QuicProxy.written_goWriteFrame hok
      rwa [hnew, List.nil_append] at hall

end Stream

/-! ## Runs -/

/-- The upstream is the echo upstream with this identity, and sends no interim response. -/
abbrev EchoServer {β : Type} (net : NetHttp β) (upstreamID : List UInt8) :
    Net Sys Conn UInt8 Answer Response → Exchange.Ev Ev Conn Answer → Prop :=
  ServedBy net fun msg a => Echoes upstreamID msg a.final.head a.body

section Run

variable {β : Type} {net : NetHttp β} {text : IoError → List UInt8} {addr : String} {maxSize : ℕ} {upstreamID : List UInt8}
  {payloads : ℕ → List UInt8} {es : List (Exchange.Ev Ev Conn Answer)} {t : Net Sys Conn UInt8 Answer Response}
  {f : Forwarder} {peer : Peer}

/-- **Every call gets the echo of its own payload**, in any interleaving of any number of calls on one pool. -/
theorem echoed_run (hnet : ReadsOneResponse net) (hfield : ReadsField net upstreamIdKey) (haddr : Writable addr)
    (htrim : trimBlank upstreamID = upstreamID)
    (h : Run (Exchange.step pooling (protocol net) fun i => echoRequest addr (payloads i)) (EchoServer net upstreamID)
      (Net.new (Sys.new addr maxSize)) es t) {i : ℕ} {x : Except (Halt IoError) Response} (hforward : HandsOn t i x)
    {resp : Response} (hx : x = .ok resp) :
    resp.body = echoBody (payloads i) ∧ Header.get upstreamIdKey resp.header = upstreamID := by
  obtain ⟨call, hcall, hr⟩ := hforward resp hx
  obtain ⟨a, hechoes, ⟨-, hbody⟩, hget⟩ := forwardPooled_answered
    (sound_carrying (Q := fun h resp => Header.get upstreamIdKey resp.header = fieldValue upstreamIdKey h) hnet hfield.get)
    (fun j => (sendable_echoRequest haddr (payloads j)).carried) h hcall hr
  have hs := hechoes.sends _ _ (readRequest_echoRequest haddr (payloads i)) rfl rfl
  have hecho := EchoUpstream.echo_some upstreamID (EchoUpstream.requestHeader (writeRequest (echoRequest addr (payloads i))))
    (payloads i)
  exact ⟨(hbody.trans hs.body).trans hecho.2, hget.trans (fieldValue_of_sends htrim hs)⟩

/-- **gRPC clients are told apart.**  Any number of calls of `Echo` on one pool, the `i`-th with the payload `payloads i`, in any
interleaving, with any segments and any failures: a call that is over has released its token and closed what it dialed, and put
back what it got unless it panicked; and what it returns is the echo of its own payload and the identity of the upstream. -/
theorem serverEcho_run (hnet : ReadsOneResponse net) (hfield : ReadsField net upstreamIdKey) (haddr : Writable addr)
    (htrim : trimBlank upstreamID = upstreamID)
    (h : Run (Exchange.step pooling (protocol net) fun i => echoRequest addr (payloads i)) (EchoServer net upstreamID)
      (Net.new (Sys.new addr maxSize)) es t) {i : ℕ}
    (hforward : HandsOn t i (f.forward net addr (echoRequest addr (payloads i)) peer).2) {tok : ℤ}
    (hover : (Server.echo net text f addr tok peer (payloads i)).2 ≠ .error .pending) :
    Released (Server.echo net text f addr tok peer (payloads i)).1 ∧
      ((Server.echo net text f addr tok peer (payloads i)).2 ≠ .error .panic →
        PutBack (Server.echo net text f addr tok peer (payloads i)).1) ∧
      ∀ r, (Server.echo net text f addr tok peer (payloads i)).2 = .ok r → r = ⟨echoBody (payloads i), upstreamID⟩ := by
  have hforwarded := forwarded net f addr (echoRequest addr (payloads i)) peer
  have hechoed : ∀ resp, (f.forward net addr (echoRequest addr (payloads i)) peer).2 = .ok resp →
      resp.body = echoBody (payloads i) ∧ Header.get upstreamIdKey resp.header = upstreamID :=
    fun _ => echoed_run hnet hfield haddr htrim h hforward
  unfold Server.echo at hover ⊢
  rw [deferring_snd] at hover ⊢
  rw [deferring_fst _ hover]
  rcases hx : f.forward net addr (echoRequest addr (payloads i)) peer with ⟨fx, x⟩
  rw [hx] at hover hforwarded hechoed
  cases x with
  | ok resp =>
    obtain ⟨hreleased, -, hput⟩ := hforwarded.settled nofun tok []
    refine ⟨hreleased, fun _ => hput nofun, fun r hr => ?_⟩
    obtain ⟨hbody, hget⟩ := hechoed resp rfl
    obtain rfl := Except.ok.inj hr
    rw [hbody]
    exact congrArg _ hget
  | error a =>
    cases a with
    | err e =>
      obtain ⟨hreleased, -, hput⟩ := hforwarded.settled nofun tok []
      refine ⟨hreleased, fun _ => hput nofun, fun r hr => ?_⟩
      cases hr
    | pending => exact absurd rfl hover
    | panic =>
      obtain ⟨hreleased, -, -⟩ := hforwarded.settled nofun tok []
      refine ⟨hreleased, fun hpanic => absurd rfl hpanic, fun r hr => ?_⟩
      cases hr

/-- **QUIC clients are told apart.**  Any number of streams that `handleStream` serves over one pool, the `i`-th with a frame of
the payload `payloads i`, in any interleaving, with any segments and any failures: what a client reads from its stream as a frame
is the echo of its own payload; it reads it, and nothing is behind it, if the upstream was reached and the stream took the frame;
and a call that is over has finished and cancelled its stream, released its token, closed what it dialed and, unless it panicked,
put back what it got. -/
theorem streamEcho_run (hnet : ReadsOneResponse net) (hfield : ReadsField net upstreamIdKey) (haddr : Writable addr)
    (htrim : trimBlank upstreamID = upstreamID)
    (h : Run (Exchange.step pooling (protocol net) fun i => echoRequest addr (payloads i)) (EchoServer net upstreamID)
      (Net.new (Sys.new addr maxSize)) es t) {i : ℕ} {q : StreamTalk} (hq : q.addr = addr)
    (hpayload : (payloads i).length < 2 ^ 32) (hrecv : q.recv.1.flat = goWriteFrame (payloads i))
    (hforward : HandsOn t i (f.forward net addr (echoRequest addr (payloads i)) q.peer).2) (hnew : q.send.written = [])
    {r : Stream UInt8} (hr : ∀ seg ∈ r.segs, seg ≠ []) (hflat : r.flat = (handleStream net f q).send.written) :
    (∀ p r', goReadFrame r = .ok (p, r') → p = echoBody (payloads i)) ∧
      ((∃ resp, (f.forward net addr (echoRequest addr (payloads i)) q.peer).2 = .ok resp) →
        (q.send.goWriteFrame (echoBody (payloads i))).1 = .ok () →
        ∃ r', goReadFrame r = .ok (echoBody (payloads i), r') ∧ r'.flat = []) ∧
      ((handleStream net f q).result ≠ .error .pending →
        Released (handleStream net f q).effects ∧
          ((handleStream net f q).result = .ok () → PutBack (handleStream net f q).effects) ∧
          (handleStream net f q).send.finished = true ∧ (handleStream net f q).cancelled = true) := by
  subst hq
  obtain ⟨s, hread, -⟩ : ∃ s, QuicProxy.readFrame q.recv.1 = .ok (payloads i, s) ∧ s.flat = [] :=
    (QuicProxy.readFrame_eq_ok q.recv.2).2 ⟨hpayload, by rw [hrecv, List.append_nil]; rfl⟩
  have hgo := QuicProxy.goReadFrame_ok_iff.2 hread
  have hlen := length_echoBody hpayload
  refine ⟨?_, ?_, settled_handleStream hgo⟩
  · intro p r' hp
    rw [QuicProxy.goReadFrame_ok_iff] at hp
    rcases written_handleStream (q := q) hgo hnew with ⟨hnone, -⟩ | ⟨resp, hresp, hpart, -⟩
    · rw [hnone] at hflat
      exact QuicProxy.eq_of_readFrame hlen List.nil_prefix hr hflat hp
    · obtain ⟨hbody, -⟩ := echoed_run hnet hfield haddr htrim h hforward hresp
      rw [hbody] at hpart
      exact QuicProxy.eq_of_readFrame hlen hpart hr hflat hp
  · rintro ⟨resp, hresp⟩ hok
    rcases written_handleStream (q := q) hgo hnew with ⟨-, hnone⟩ | ⟨resp', hresp', -, hall⟩
    · exact absurd hresp (hnone resp)
    · obtain ⟨hbody, -⟩ := echoed_run hnet hfield haddr htrim h hforward hresp'
      rw [hbody] at hall
      obtain ⟨r', hr', hrest⟩ : ∃ r', QuicProxy.readFrame r = .ok (echoBody (payloads i), r') ∧ r'.flat = [] :=
        (QuicProxy.readFrame_eq_ok hr).2 ⟨hlen, by rw [hflat, hall hok, List.append_nil]⟩
      exact ⟨r', QuicProxy.goReadFrame_ok_iff.2 hr', hrest⟩

end Run

/-! ## The library on small segments -/

theorem Header.get_eq {k : List Char} (hk : canonicalMIMEHeaderKey k = k) (h : Header) :
    Header.get k h = (h.values k).head?.getD [] := by
  unfold Header.get Header.values
  rw [hk]
  cases (h.find? fun p => p.1 = k).map Prod.snd <;> rfl

/-- **`bufferedHttp` reads a field.** -/
theorem readsField_bufferedHttp {k : List Char} (hk : canonicalMIMEHeaderKey k = k) : ReadsField bufferedHttp k where
  get := by
    intro head segs more rest e resp left _ hbytes hread
    obtain ⟨⟨code, header, b⟩, hresp, hread⟩ := bind_eq_ok.1 hread
    obtain ⟨⟨body, left'⟩, -, hread⟩ := bind_eq_ok.1 hread
    obtain ⟨rfl, -⟩ := Prod.mk.inj (Except.ok.inj hread)
    simp only [bufferedHttp] at hresp
    split at hresp
    · exact absurd hresp (atEnd_ne_ok _ _)
    · rename_i h rest' hhead
      split at hresp
      · cases hresp
      · obtain ⟨-, rfl, -⟩ := HttpResponse.mk.inj (Except.ok.inj hresp)
        -- the head that was read is the one that was sent
        have hmore := Rfc9112.readReplyHead_more hhead more
        rw [show (⟨segs, e⟩ : Stream UInt8).flat ++ more = head.bytes ++ rest from hbytes, Rfc9112.readReplyHead_head] at hmore
        obtain ⟨rfl, -⟩ := Prod.mk.inj (Option.some.inj hmore)
        have hvalues := Header.values_foldl_add (k := k) head.received.fields []
        rw [show Header.values k [] = [] from rfl, List.nil_append] at hvalues
        rw [Header.get_eq hk, hvalues, fieldValue]
        simp only [StatusHead.received, List.filter_map, List.map_map]
        rfl

/-! ## A run -/

theorem interim_nil : ∀ h ∈ ([] : List Rfc9112.StatusHead), h.code < 200 := by simp

def hiAnswer : Answer where
  method := "POST".toList
  interims := []
  final := ⟨Echo.hiAnswer.head, .sized [104, 105], by unfold Rfc9112.FramedReply; decide⟩
  interim := interim_nil
  status := by decide

def echoOkAnswer : Answer where
  method := "POST".toList
  interims := []
  final := ⟨Echo.echoOkAnswer.head, .sized (utf8Encode "echo-ok\n".toList), by unfold Rfc9112.FramedReply; decide⟩
  interim := interim_nil
  status := by decide

/-- Two calls, one after the other on one connection: the payload `hi`, and an empty one. -/
def echoing : List (Exchange.Ev Ev Conn Answer) :=
  [.pool .call, .pool (.run 0 .recv), .pool (.run 0 .add), .pool (.run 0 .dialOk), .start 0,
    .call 0 (.write (writeRequest (echoRequest "u:1" [104, 105])).length), .call 0 .flush, .serve conn0 hiAnswer,
    .call 0 (.recv 10), .call 0 (.recv (hiAnswer.bytes.length - 10)), .done 0, .pool (.send 0 none),
    .pool .call, .pool (.run 1 .recv), .start 1, .call 1 (.write (writeRequest (echoRequest "u:1" [])).length), .call 1 .flush,
    .serve conn0 echoOkAnswer, .call 1 (.recv echoOkAnswer.bytes.length)]

def echoResponse (a : Answer) (type digits : List Char) : Response :=
  { statusCode := 200
    header := [(upstreamIdKey, [[97]]), ("Content-Type".toList, [utf8Encode type]), ("Content-Length".toList, [utf8Encode digits])]
    body := a.body }

theorem run_echoing : ∃ t, Run (Exchange.step pooling (protocol bufferedHttp) fun i => echoRequest "u:1" (Echo.hiThenEmpty i))
    (EchoServer bufferedHttp [97]) (Net.new (Sys.new "u:1" 1)) echoing t ∧
      (t.calls 0).map (fun call => call.phase) =
        some (.returned (echoResponse hiAnswer "application/octet-stream".toList ['2'])) ∧
      (t.calls 1).map (fun call => call.phase) = some (.returned (echoResponse echoOkAnswer "text/plain".toList ['8'])) := by
  have hexec : (exec (Exchange.step pooling (protocol bufferedHttp) fun i => echoRequest "u:1" (Echo.hiThenEmpty i))
      (EchoServer bufferedHttp [97]) (Net.new (Sys.new "u:1" 1)) echoing).map
        (fun t => ((t.calls 0).map (fun call => call.phase), (t.calls 1).map fun call => call.phase)) =
      some (some (.returned (echoResponse hiAnswer "application/octet-stream".toList ['2'])),
        some (.returned (echoResponse echoOkAnswer "text/plain".toList ['8']))) := by
    decide +kernel
  obtain ⟨t, ht, hphases⟩ := Option.map_eq_some_iff.1 hexec
  obtain ⟨hfirst, hsecond⟩ := Prod.mk.inj hphases
  exact ⟨t, Run.of_exec ht, hfirst, hsecond⟩

def arrived (a : Answer) (h : a.bytes ≠ []) : Peer :=
  .conn conn0 .done ⟨⟨[a.bytes], .open⟩, fun seg hseg => by rwa [List.mem_singleton.1 hseg]⟩

/-- The second call, over gRPC. -/
theorem serverEcho_run_empty : ∃ r,
    (Server.echo bufferedHttp (fun _ => []) (.pool ["u:1"]) "u:1" (-1) (arrived echoOkAnswer (by decide)) (Echo.hiThenEmpty 1)).2 =
        .ok r ∧ r = ⟨utf8Encode "echo-ok\n".toList, [97]⟩ := by
  obtain ⟨t, hrun, -, hphase⟩ := run_echoing
  have hforward : ((Forwarder.pool ["u:1"]).forward bufferedHttp "u:1" (echoRequest "u:1" (Echo.hiThenEmpty 1))
      (arrived echoOkAnswer (by decide))).2 = .ok (echoResponse echoOkAnswer "text/plain".toList ['8']) := by
    decide +kernel
  have hr : (Server.echo bufferedHttp (fun _ => []) (.pool ["u:1"]) "u:1" (-1) (arrived echoOkAnswer (by decide))
      (Echo.hiThenEmpty 1)).2 = .ok ⟨echoOkAnswer.body, [97]⟩ := by
    decide +kernel
  have hover : (Server.echo bufferedHttp (fun _ => []) (.pool ["u:1"]) "u:1" (-1) (arrived echoOkAnswer (by decide))
      (Echo.hiThenEmpty 1)).2 ≠ .error .pending := by
    rw [hr]
    nofun
  exact ⟨_, hr, (serverEcho_run readsOneResponse_bufferedHttp (readsField_bufferedHttp (by decide)) (by decide) (by decide) hrun
    (handsOn_of_returned hforward hphase) hover).2.2 _ hr⟩

def hiTalk : StreamTalk :=
  { recv := Echo.hiTalk.recv, addr := "u:1", tok := -1
    peer := arrived hiAnswer (by decide), send := .new }

theorem streamEcho_run_hi : ∃ r', goReadFrame Echo.hiReceived = .ok ([104, 105], r') ∧ r'.flat = [] := by
  obtain ⟨t, hrun, hphase, -⟩ := run_echoing
  have hforward : ((Forwarder.pool ["u:1"]).forward bufferedHttp "u:1" (echoRequest "u:1" (Echo.hiThenEmpty 0)) hiTalk.peer).2 =
      .ok (echoResponse hiAnswer "application/octet-stream".toList ['2']) := by
    decide +kernel
  have hwritten : (handleStream bufferedHttp (.pool ["u:1"]) hiTalk).send.written = [0, 0, 0, 2, 104, 105] := by
    decide +kernel
  have hflat : Echo.hiReceived.flat = (handleStream bufferedHttp (.pool ["u:1"]) hiTalk).send.written := by
    rw [hwritten]
    decide
  have hsegs : ∀ seg ∈ Echo.hiReceived.segs, seg ≠ [] := by decide
  have hrecv : hiTalk.recv.1.flat = goWriteFrame (Echo.hiThenEmpty 0) := by decide
  have hrun' := streamEcho_run readsOneResponse_bufferedHttp (readsField_bufferedHttp (by decide)) (by decide) (by decide) hrun
    rfl (by decide) hrecv (handsOn_of_returned hforward hphase) rfl hsegs hflat
  exact hrun'.2.1 ⟨_, hforward⟩ (by decide)

end ServiceProxy.Go
