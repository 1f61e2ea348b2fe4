import ServiceProxy.EchoUpstream
import ServiceProxy.Go.Transparent

/-!
# Requests of the library's servers in Go (`Handler`)

`Handler` is called by the servers of HTTP/2 and HTTP/3, and by that of HTTP/1.1 for clients that do not upgrade.  It answers
through an `http.ResponseWriter`.  What the server puts on the wire for it (fields of its own, a body that is left out, what comes
behind an informational status) is the library's affair; here is what the handler tells its writer.

* `ResponseWriter` — the writer, as the handler uses it;
* `handler_answer` — what the writer is told where the upstream has answered, for every status code;
* `handler_run` — in every run over one pool, the writer is told the answer of the upstream to the client's own request.
-/

namespace ServiceProxy.Go

open ServiceProxy.Lib
open ServiceProxy.EchoUpstream (httpError)
open ServiceProxy.Lib.Exchange (Net HandsOn handsOn_of_returned)
open ServiceProxy.Lib.Rfc9112 (Received Obeys)
open ServiceProxy.ProxyHttp (Sent)

/-! ## The code -/

/-- A call on the writer: `WriteHeader`, with the header as it is then, or `Write`. -/
inductive Told
  | writeHeader (code : ℕ) (header : Header)
  | write (bytes : List UInt8)
  deriving DecidableEq, Repr

/-- `http.ResponseWriter`: its header, and the calls on it that have returned. -/
structure ResponseWriter where
  header : Header
  told : List Told
  deriving DecidableEq, Repr

/-- The writer that a handler is called with. -/
def ResponseWriter.new : ResponseWriter := ⟨[], []⟩

/-- The first `WriteHeader` on a writer.  It panics if the code has not three digits. -/
def ResponseWriter.writeHeader (w : ResponseWriter) (code : ℕ) : Except (Halt IoError) ResponseWriter :=
  if code < 100 ∨ 999 < code then .error .panic
  else .ok { w with told := w.told ++ [.writeHeader code w.header] }

/-- The header is set, and `WriteHeader` and `Write` are called; `sent` is what becomes of the write. -/
def ResponseWriter.respond (w : ResponseWriter) (sent : Sent) (resp : Response) : Except (Halt IoError) ResponseWriter := do
  let w ← { w with header := resp.header }.writeHeader resp.statusCode
  replyResult sent
  .ok { w with told := w.told ++ [.write resp.body] }

/-- The loop over `resp.Header`. -/
def copyHeader (header h : Header) : Header :=
  header.foldl (fun h (k, values) =>
    if skipsInResponse k then h else values.foldl (fun h v => Header.add (canonicalMIMEHeaderKey k) v h) h) h

/-- What a call of the handler meets: the request, with what `io.ReadAll` makes of its body.  The selector returns `addr` and
`tok`. -/
structure HandlerTalk where
  request : HttpRequest (Except (Halt IoError) (List UInt8))
  addr : String
  tok : ℤ
  peer : Peer
  reply : Sent

def HandlerTalk.upstream (q : HandlerTalk) (body : List UInt8) : Request :=
  { q.request.upstream body with host := utf8Encode q.addr.toList }

/-- The handler from `selector.Next()` on, up to its deferred call. -/
def serveRequest {β : Type} (net : NetHttp β) (f : Forwarder) (q : HandlerTalk) (w : ResponseWriter) (body : List UInt8) :
    Acting IoError ResponseWriter :=
  match f.forward net q.addr (q.upstream body) q.peer with
  | (fx, .ok resp) => (.next q.tok :: fx, w.respond q.reply { resp with header := copyHeader resp.header w.header })
  | (fx, .error (.err _)) =>
    (.next q.tok :: fx, w.respond q.reply (httpError w.header (utf8Encode "bad gateway".toList) 502))
  | (fx, .error .pending) => (.next q.tok :: fx, .error .pending)
  | (fx, .error .panic) => (.next q.tok :: fx, .error .panic)

/-- The function that `Handler` returns: when it returns, its writer. -/
def handler {β : Type} (net : NetHttp β) (f : Forwarder) (q : HandlerTalk) : Acting IoError ResponseWriter :=
  let w := ResponseWriter.new
  match q.request.body with
  | .error (.err _) => ([], w.respond q.reply (httpError w.header (utf8Encode "failed to read body".toList) 400))
  | .error .pending => ([], .error .pending)
  | .error .panic => ([], .error .panic)
  | .ok body => deferring (.release q.tok) (serveRequest net f q w body)

/-! ## The writer -/

section Writer

variable {sent : Sent} {resp : Response} {w : ResponseWriter}

theorem writeHeader_new (header : Header) (code : ℕ) :
    { ResponseWriter.new with header }.writeHeader code =
      if code < 100 ∨ 999 < code then .error .panic else .ok ⟨header, [.writeHeader code header]⟩ := rfl

/-- **What a new writer is told of a response.** -/
theorem told_respond (h : ResponseWriter.new.respond sent resp = .ok w) :
    w.told = [.writeHeader resp.statusCode resp.header, .write resp.body] := by
  obtain ⟨w₁, hhead, h⟩ := bind_eq_ok.1 h
  obtain ⟨-, -, h⟩ := bind_eq_ok.1 h
  obtain rfl := Except.ok.inj h
  replace hhead := (writeHeader_new resp.header resp.statusCode).symm.trans hhead
  split_ifs at hhead
  obtain rfl := Except.ok.inj hhead
  rfl

/-- **When it panics**: if the status has not three digits. -/
theorem respond_panics_iff :
    ResponseWriter.new.respond sent resp = .error .panic ↔ resp.statusCode < 100 ∨ 999 < resp.statusCode := by
  have hhead := writeHeader_new resp.header resp.statusCode
  unfold ResponseWriter.respond
  rw [hhead]
  by_cases hcode : resp.statusCode < 100 ∨ 999 < resp.statusCode
  · rw [if_pos hcode]
    exact iff_of_true rfl hcode
  · rw [if_neg hcode]
    refine iff_of_false ?_ hcode
    cases sent <;> exact fun h => nomatch h

end Writer

/-! ## The header -/

theorem copyHeader_eq (header h : Header) :
    copyHeader header h =
      (fieldsOf skipsInResponse header).foldl (fun m p => Header.add (canonicalMIMEHeaderKey p.1) p.2 m) h := by
  unfold copyHeader
  induction header generalizing h with
  | nil => rfl
  | cons p header ih =>
    obtain ⟨k, values⟩ := p
    have hcons : fieldsOf skipsInResponse ((k, values) :: header) =
        (if skipsInResponse k then [] else values.map fun v => (k, v)) ++ fieldsOf skipsInResponse header := rfl
    rw [List.foldl_cons, ih, hcons, List.foldl_append]
    cases hk : skipsInResponse k with
    | true => simp [hk]
    | false => simp [hk, List.foldl_map]

/-- **Under every key stand the values of the upstream**, in their order. -/
theorem values_copyHeader (header : Header) (k : List Char) :
    (copyHeader header []).values k =
      ((fieldsOf skipsInResponse header).filter fun p => canonicalMIMEHeaderKey p.1 = k).map Prod.snd := by
  rw [copyHeader_eq, Header.values_foldl_add, show Header.values k [] = [] from rfl, List.nil_append]

/-! ## One call -/

section Call

variable {β : Type} {net : NetHttp β} {f : Forwarder} {q : HandlerTalk} {body : List UInt8} {fx : List Effect}

theorem handler_effects (hover : (handler net f q).2 ≠ .error .pending) :
    (handler net f q).1 = [] ∨ ∃ body fx x, q.request.body = .ok body ∧
      f.forward net q.addr (q.upstream body) q.peer = (fx, x) ∧ x ≠ .error .pending ∧
      (x = .error .panic → (handler net f q).2 = .error .panic) ∧
      (handler net f q).1 = .next q.tok :: (fx ++ [.release q.tok]) := by
  unfold handler at hover ⊢
  cases hbody : q.request.body with
  | error a => cases a <;> exact .inl rfl
  | ok body =>
    rw [hbody] at hover
    simp only [deferring_snd] at hover ⊢
    rw [deferring_fst _ hover]
    unfold serveRequest at hover ⊢
    rcases hforward : f.forward net q.addr (q.upstream body) q.peer with ⟨fx, x⟩
    rw [hforward] at hover
    refine .inr ⟨body, fx, x, rfl, hforward, ?_⟩
    cases x with
    | ok resp => exact ⟨fun h => (nomatch h), fun h => (nomatch h), rfl⟩
    | error a =>
      cases a with
      | err e => exact ⟨fun h => (nomatch h), fun h => (nomatch h), rfl⟩
      | pending => exact absurd rfl hover
      | panic => exact ⟨fun h => (nomatch h), fun _ => rfl, rfl⟩

/-- **A call that is over has settled what it took.** -/
theorem settled_handler (hover : (handler net f q).2 ≠ .error .pending) :
    Released (handler net f q).1 ∧ ((handler net f q).2 ≠ .error .panic → PutBack (handler net f q).1) := by
  rcases handler_effects hover with hnil | ⟨body, fx, x, -, hx, hpending, hpanic, hfx⟩
  · rw [hnil]
    exact ⟨⟨fun _ => rfl, fun _ => rfl⟩, fun _ _ => rfl⟩
  · have hforwarded := forwarded net f q.addr (q.upstream body) q.peer
    rw [hx] at hforwarded
    obtain ⟨hreleased, -, hput⟩ := hforwarded.settled hpending q.tok []
    rw [hfx]
    exact ⟨hreleased, fun hreturned => hput fun h => hreturned (hpanic h)⟩

/-- How a call ends that has read its body, by what the forwarder returns. -/
theorem handler_snd (hbody : q.request.body = .ok body) :
    (handler net f q).2 =
      match (f.forward net q.addr (q.upstream body) q.peer).2 with
      | .ok resp =>
        ResponseWriter.new.respond q.reply { resp with header := copyHeader resp.header [] }
      | .error (.err _) => ResponseWriter.new.respond q.reply (httpError [] (utf8Encode "bad gateway".toList) 502)
      | .error .pending => .error .pending
      | .error .panic => .error .panic := by
  unfold handler
  rw [hbody]
  simp only [deferring_snd, serveRequest]
  rcases f.forward net q.addr (q.upstream body) q.peer with ⟨fx, x⟩
  cases x with
  | ok resp => rfl
  | error a => cases a <;> rfl

/-- **What the writer is told where the upstream has answered.**  For every request, forwarder and upstream: the handler panics
exactly if the status has not three digits; otherwise, when it returns, it has called `WriteHeader` with the status and `Write` with
the body, and under each key of the header stood the values that the upstream has sent under it, but those of `Connection` and
`Content-Length`. -/
theorem handler_answer {resp : Response} (hbody : q.request.body = .ok body)
    (hresp : (f.forward net q.addr (q.upstream body) q.peer).2 = .ok resp) :
    ((handler net f q).2 = .error .panic ↔ resp.statusCode < 100 ∨ 999 < resp.statusCode) ∧
      ∀ w, (handler net f q).2 = .ok w → ∃ header : Header,
        (∀ k, header.values k =
          ((fieldsOf skipsInResponse resp.header).filter fun p => canonicalMIMEHeaderKey p.1 = k).map Prod.snd) ∧
        w.told = [.writeHeader resp.statusCode header, .write resp.body] := by
  rw [handler_snd hbody, hresp]
  exact ⟨respond_panics_iff, fun w hw => ⟨copyHeader resp.header [], values_copyHeader _, told_respond hw⟩⟩

end Call

/-- A call whose upstream sends `HTTP/1.1 103 Early Hints` first. -/
def hintedTalk : HandlerTalk where
  request := ⟨"GET".toList, [47], [], [], .ok []⟩
  addr := "u:1"
  tok := -1
  peer := .conn conn0 .done ⟨⟨[utf8Encode "HTTP/1.1 103 Early Hints\r\n\r\nHTTP/1.1 404 Not Found\r\n\r\n".toList], .open⟩, by decide⟩
  reply := .done

/-- The hint is passed on as the response. -/
theorem handler_answer_hinted : ∃ w header, (handler bufferedHttp .dial hintedTalk).2 = .ok w ∧
    w.told = [.writeHeader 103 header, .write []] := by
  have hresp : (Forwarder.dial.forward bufferedHttp "u:1" (hintedTalk.upstream []) hintedTalk.peer).2 = .ok ⟨103, [], []⟩ := by
    decide +kernel
  have hok : (handler bufferedHttp .dial hintedTalk).2 = .ok ⟨[], [.writeHeader 103 [], .write []]⟩ := by
    decide +kernel
  obtain ⟨header, -, htold⟩ := (handler_answer rfl hresp).2 _ hok
  exact ⟨_, header, hok, htold⟩

/-! ## Runs -/

/-- The request that is forwarded in a call, its keys in some order. -/
structure Forwards (q : HandlerTalk) (req : Request) : Prop where
  read : ∃ body, q.request.body = .ok body ∧ req.header.Perm q.request.header ∧
    req = { q.upstream body with header := req.header }

/-- The header of an error. -/
def errorHeader : Header := (httpError [] [] 0).header

section Run

variable {β : Type} {net : NetHttp β} {f : Forwarder} {q : HandlerTalk} {L : Received → Answer → Prop} {addr : String}
  {maxSize : ℕ} {reqs : ℕ → Request} {targets : ℕ → List Char} {es : List (Exchange.Ev Ev Conn Answer)}
  {t : Net Sys Conn UInt8 Answer Response} {a : Answer}

/-- **Clients of the handler are told apart.**  Any number of calls on one pool, in any interleaving, with any segments and any
failures: a call that is over has released its token, closed what it dialed and put back what it got; it panics only if the
forwarder does.  When it returns, its writer has been told an answer that the upstream may give to the client's own request: its
status, its fields but those that are left out, and its body; or a `502`. -/
theorem handler_run (hnet : ReadsOneResponse net) (hreqs : ∀ j, SendableRequest (reqs j) (targets j) ∧ (reqs j).header.Plain)
    (h : Run (Exchange.step pooling (protocol net) reqs) (ServedBy net (Obeys L)) (Net.new (Sys.new addr maxSize)) es t)
    {i : ℕ} (hq : Forwards q (reqs i)) (hforward : HandsOn t i (f.forward net q.addr (reqs i) q.peer).2)
    (hover : (handler net f q).2 ≠ .error .pending) :
    Released (handler net f q).1 ∧ ((handler net f q).2 ≠ .error .panic → PutBack (handler net f q).1) ∧
      ((handler net f q).2 = .error .panic ↔ (f.forward net q.addr (reqs i) q.peer).2 = .error .panic) ∧
      ∀ w, (handler net f q).2 = .ok w →
        (∃ resp a header, (f.forward net q.addr (reqs i) q.peer).2 = .ok resp ∧
            L ⟨q.request.method, targets i, (reqs i).body⟩ a ∧ Carries a resp ∧
            (∀ k, header.values k =
              ((fieldsOf skipsInResponse resp.header).filter fun p => canonicalMIMEHeaderKey p.1 = k).map Prod.snd) ∧
            w.told = [.writeHeader a.final.head.code header, .write a.body]) ∨
          (∃ e, (f.forward net q.addr (reqs i) q.peer).2 = .error (.err e)) ∧
            w.told = [.writeHeader 502 errorHeader, .write (utf8Encode "bad gateway\n".toList)] := by
  obtain ⟨hreleased, hput⟩ := settled_handler hover
  refine ⟨hreleased, hput, ?_⟩
  obtain ⟨body, hbody, -, hreq⟩ := hq.read
  have hmethod : (reqs i).method = q.request.method := by
    rw [hreq]
    rfl
  rw [handler_snd hbody, ← forward_eq net f q.addr (reqs i) (q.upstream body) q.peer] at hover ⊢
  cases hx : (f.forward net q.addr (reqs i) q.peer).2 with
  | ok resp =>
    obtain ⟨call, hcall, hr⟩ := hforward resp hx
    obtain ⟨a, hobeys, hcarries⟩ := forwardPooled_answered (sound_final hnet) (fun j => (hreqs j).1.carried) h hcall hr
    have hL := hobeys.read _ _ (readRequest_writeRequest (hreqs i).1 (hreqs i).2)
    rw [hmethod] at hL
    refine ⟨iff_of_false (fun hpanic => ?_) fun h => (nomatch h), fun w hw => ?_⟩
    · -- the status of a head has three digits
      have hcode := respond_panics_iff.1 hpanic
      have hge := a.status
      have hlt := a.final.head.code_lt
      rw [← hcarries.1] at hge hlt
      simp only at hcode
      omega
    · refine .inl ⟨resp, a, _, rfl, hL, hcarries, values_copyHeader _, ?_⟩
      rw [told_respond hw, ← hcarries.1, ← hcarries.2]
  | error b =>
    rw [hx] at hover
    cases b with
    | err e =>
      refine ⟨iff_of_false (fun hpanic => ?_) fun h => (nomatch h), fun w hw => ?_⟩
      · have hcode := respond_panics_iff.1 hpanic
        simp only [httpError] at hcode
        omega
      · have hline : utf8Encode "bad gateway".toList ++ [10] = utf8Encode "bad gateway\n".toList := by decide
        refine .inr ⟨⟨e, rfl⟩, ?_⟩
        rw [told_respond hw, httpError, hline]
        rfl
    | pending => exact absurd rfl hover
    | panic => exact ⟨iff_of_true rfl rfl, fun w hw => (nomatch hw)⟩

end Run

/-! ## A run -/

/-- `GET / HTTP/1.1` for the upstream `u:1`. -/
def getUpstream : Request := { getRoot with host := utf8Encode "u:1".toList }

theorem sendable_getUpstream : SendableRequest getUpstream ['/'] ∧ getUpstream.header.Plain := by
  refine ⟨⟨by decide, by decide, by decide, by decide, by decide, by decide, ⟨?_, ?_⟩⟩, ?_⟩
  · exact fun k vs hmem => absurd hmem List.not_mem_nil
  · exact fun k vs hmem => absurd hmem List.not_mem_nil
  · exact fun k vs hmem => absurd hmem List.not_mem_nil

/-- One call, which gets its answer in two segments. -/
def calling : List (Exchange.Ev Ev Conn Answer) :=
  [.pool .call, .pool (.run 0 .recv), .pool (.run 0 .add), .pool (.run 0 .dialOk), .start 0,
    .call 0 (.write (writeRequest getUpstream).length), .call 0 .flush, .serve conn0 chunkedAnswer, .call 0 (.recv 10),
    .call 0 (.recv (chunkedAnswer.bytes.length - 10)), .done 0, .pool (.send 0 none)]

def getTalk : HandlerTalk where
  request := ⟨"GET".toList, [47], [], [], .ok []⟩
  addr := "u:1"
  tok := -1
  peer := rootTalk.peer
  reply := .done

/-- The writer is told the body without its chunks. -/
theorem handler_run_chunked : ∃ w header, (handler plainHttp (.pool ["u:1"]) getTalk).2 = .ok w ∧
    w.told = [.writeHeader 200 header, .write (utf8Encode "hello".toList)] := by
  have hexec : (exec (Exchange.step pooling (protocol plainHttp) fun _ => getUpstream) (ServedBy plainHttp (Obeys SaysOk))
      (Net.new (Sys.new "u:1" 1)) calling).map (fun t => (t.calls 0).map fun call => call.phase) =
        some (some (.returned helloResponse)) := by
    decide +kernel
  obtain ⟨t, ht, hphase⟩ := Option.map_eq_some_iff.1 hexec
  have hok : ((Forwarder.pool ["u:1"]).forward plainHttp "u:1" getUpstream getTalk.peer).2 = .ok helloResponse := by
    decide +kernel
  have hreturned : (handler plainHttp (.pool ["u:1"]) getTalk).2 =
      .ok ⟨[], [.writeHeader 200 [], .write (utf8Encode "hello".toList)]⟩ := by
    decide +kernel
  have hover : (handler plainHttp (.pool ["u:1"]) getTalk).2 ≠ .error .pending := by
    rw [hreturned]
    exact fun h => nomatch h
  obtain ⟨-, -, -, hgets⟩ := handler_run readsOneResponse_plainHttp (fun _ => sendable_getUpstream) (Run.of_exec ht) (i := 0)
    (q := getTalk) ⟨[], rfl, .refl _, rfl⟩ (handsOn_of_returned hok hphase) hover
  obtain ⟨resp, a, header, hresp, -, hcarries, -, htold⟩ | ⟨⟨e, herr⟩, -⟩ := hgets _ hreturned
  · obtain rfl := Except.ok.inj (hresp.symm.trans hok)
    refine ⟨_, header, hreturned, ?_⟩
    rw [htold, ← hcarries.1, ← hcarries.2]
    rfl
  · rw [show ((Forwarder.pool ["u:1"]).forward plainHttp getTalk.addr getUpstream getTalk.peer).2 = _ from hok] at herr
    cases herr

end ServiceProxy.Go
