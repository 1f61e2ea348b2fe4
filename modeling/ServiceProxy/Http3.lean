import ServiceProxy.HyperResponse

/-!
# The handler of HTTP/3 requests (`handle_http3_request`)

`handle_http3_request` does what `handle_hyper_request` does, on a stream of its own: it receives the body in chunks and sends
the head of the response, its data and the end of the stream one after the other.  Where the other handler unwraps the result
of the response builder, it returns the error.

* `sendFrames` — the sends, each of which may fail or wait;
* `Follows` — what the handler does, by what the handler of HTTP/2 makes of the same request and the same upstream;
* `http3_follows` — it does so for every request, every division of its body into chunks, every upstream and every outcome of
  the sends.
-/

namespace ServiceProxy.ProxyHttp

open ServiceProxy.Lib ServiceProxy.Upstream

/-! ## The code -/

/-- What is sent on the stream of a request. -/
inductive Frame
  | headers (status : ℕ) (headers : List (List Char × List Char))
  | data (bytes : List UInt8)
  | fin
  deriving DecidableEq, Repr

/-- The errors that the handler returns: of the stream, or of the `http` crate. -/
inductive Http3Error
  | stream (e : IoError) | http
  deriving DecidableEq, Repr

/-- What a call of `handle_http3_request` meets: the request, the chunks that `recv_data` returns and what comes behind them,
what `next` and the forwarder find, and what becomes of the three sends. -/
structure Http3Talk where
  method : List Char
  path : List Char
  headers : List (List Char × List UInt8)
  chunks : Stream UInt8
  addr : String
  tok : ℤ
  peer : Peer
  sendResponse : Sent
  sendData : Sent
  finish : Sent

/-- The loop over `recv_data`. -/
def recvBody : List (List UInt8) → Ending → List UInt8 → Except (Halt Http3Error) (List UInt8)
  | chunk :: chunks, e, body => recvBody chunks e (body ++ chunk)
  | [], .eof, body => .ok body
  | [], .failed, _ => .error (.err (.stream .other))
  | [], .open, _ => .error .pending

/-- Sends that follow one another: the frames whose sends have returned, and how they end. -/
def sendFrames : List (Frame × Sent) → List Frame × Except (Halt Http3Error) Unit
  | [] => ([], .ok ())
  | (f, .done) :: rest => (f :: (sendFrames rest).1, (sendFrames rest).2)
  | (_, .failed e) :: _ => ([], .error (.err (.stream e)))
  | (_, .stuck) :: _ => ([], .error .pending)

/-- The response of the builder, up to its body. -/
def http3Builder (http : HttpCrate) (resp : Response) : Builder :=
  let builder : Builder := some (200, [])
  let builder := builder.status http resp.statusCode
  resp.headers.foldl (fun builder (k, values) =>
    if skipsInResponse k then builder else values.foldl (fun builder v => builder.header http (k, v)) builder) builder

/-- `send_response`, `send_data` and `finish`, if the builder has no error. -/
def respond (q : Http3Talk) (builder : Builder) (body : List UInt8) : List Frame × Except (Halt Http3Error) Unit :=
  match builder with
  | some (status, headers) =>
    sendFrames [(.headers status headers, q.sendResponse), (.data body, q.sendData), (.fin, q.finish)]
  | none => ([], .error (.err .http))

/-- `handle_http3_request`: what was sent, how it ends, and what it did. -/
def handleHttp3Request (http : HttpCrate) (kind : ForwarderKind) (q : Http3Talk) :
    (List Frame × Except (Halt Http3Error) Unit) × List Effect :=
  match recvBody q.chunks.segs q.chunks.ending [] with
  | .error a => (([], .error a), [])
  | .ok body =>
    match kind.forward q.addr (upstreamRequest q.addr ⟨q.method, q.path, q.headers, some body⟩ body) q.peer with
    | (fx, .ok resp) => (respond q (http3Builder http resp) resp.body, .next q.tok :: (fx ++ [.release q.tok]))
    | (fx, .error (.err _)) =>
      (respond q (Builder.status (some (200, [])) http 502) (utf8Encode "bad gateway".toList),
        .next q.tok :: (fx ++ [.release q.tok]))
    | (fx, .error .pending) => (([], .error .pending), .next q.tok :: fx)
    | (fx, .error .panic) => (([], .error .panic), .next q.tok :: fx)

/-! ## The parts -/

section Parts

variable {http : HttpCrate} {q : Http3Talk}

/-- **The chunks do not matter**, only their bytes. -/
theorem recvBody_eq (chunks : List (List UInt8)) (e : Ending) (body : List UInt8) :
    recvBody chunks e body =
      match e with
      | .eof => .ok (body ++ chunks.flatten)
      | .failed => .error (.err (.stream .other))
      | .open => .error .pending := by
  induction chunks generalizing body with
  | nil => cases e <;> simp [recvBody]
  | cons chunk chunks ih =>
    rw [recvBody, ih]
    cases e <;> simp

/-- What is sent comes first of what is to be sent, and all of it is sent exactly if the sends return. -/
theorem sendFrames_spec (l : List (Frame × Sent)) :
    (sendFrames l).1 <+: l.map Prod.fst ∧ ((sendFrames l).2 = .ok () ↔ (sendFrames l).1 = l.map Prod.fst) ∧
      ((sendFrames l).2 = .ok () ↔ ∀ p ∈ l, p.2 = .done) ∧ (sendFrames l).2 ≠ .error .panic := by
  induction l with
  | nil => simp [sendFrames]
  | cons p l ih =>
    obtain ⟨f, s⟩ := p
    obtain ⟨hpart, hall, hdone, hpanic⟩ := ih
    cases s with
    | done =>
      simp only [sendFrames, List.map_cons, List.cons.injEq, true_and, List.forall_mem_cons]
      exact ⟨(List.prefix_cons_inj f).2 hpart, hall, hdone, hpanic⟩
    | failed e => simp [sendFrames]
    | stuck => simp [sendFrames]

theorem sendFrames_ne_http (l : List (Frame × Sent)) : (sendFrames l).2 ≠ .error (.err .http) := by
  induction l with
  | nil => exact fun h => nomatch h
  | cons p l ih =>
    obtain ⟨f, s⟩ := p
    cases s with
    | done => exact ih
    | failed e => exact fun h => nomatch h
    | stuck => exact fun h => nomatch h

theorem http3Builder_eq (http : HttpCrate) (resp : Response) :
    hyperFromUpstream http resp =
      (http3Builder http resp).map fun p => { status := p.1, headers := p.2, body := resp.body } := rfl

theorem status_badGateway (h502 : http.status 502 = true) : Builder.status (some (200, [])) http 502 = some (502, []) := by
  simp [Builder.status, h502]

/-- The frames of a response. -/
def framesOf (r : HyperResponse) : List Frame := [.headers r.status r.headers, .data r.body, .fin]

/-- The three sends return. -/
def AllSent (q : Http3Talk) : Prop := q.sendResponse = .done ∧ q.sendData = .done ∧ q.finish = .done

theorem respond_some (q : Http3Talk) (status : ℕ) (headers : List (List Char × List Char)) (body : List UInt8) :
    (respond q (some (status, headers)) body).1 <+: framesOf ⟨status, headers, body⟩ ∧
      ((respond q (some (status, headers)) body).2 = .ok () ↔
        (respond q (some (status, headers)) body).1 = framesOf ⟨status, headers, body⟩) ∧
      ((respond q (some (status, headers)) body).2 = .ok () ↔ AllSent q) ∧
      (respond q (some (status, headers)) body).2 ≠ .error .panic := by
  have hspec := sendFrames_spec [(.headers status headers, q.sendResponse), (.data body, q.sendData), (.fin, q.finish)]
  simp only [List.map_cons, List.map_nil, List.forall_mem_cons, List.not_mem_nil, false_implies, implies_true,
    and_true] at hspec
  exact hspec

end Parts

/-! ## The handler follows the other one -/

/-- **What the handler does where the handler of HTTP/2 ends in `o`.**  Where it responds, the same response is sent, as far as
the sends return; where it waits, so does this one; where it panics, this one panics too or returns an error, and nothing is
sent. -/
inductive Follows (q : Http3Talk) : HyperOutcome → List Frame → Except (Halt Http3Error) Unit → Prop
  | responded {r : HyperResponse} {frames : List Frame} {x : Except (Halt Http3Error) Unit} : frames <+: framesOf r →
      (x = .ok () ↔ frames = framesOf r) → (x = .ok () ↔ AllSent q) → x ≠ .error .panic → Follows q (.responded r) frames x
  | waiting : Follows q .waiting [] (.error .pending)
  | refused : Follows q .panicked [] (.error (.err .http))
  | panicked : Follows q .panicked [] (.error .panic)

section Handler

variable {http : HttpCrate} {kind : ForwarderKind} {q : Http3Talk} {body : List UInt8}

/-- The request that the handler of HTTP/2 would get. -/
def Http3Talk.hyper (q : Http3Talk) (body : List UInt8) : HyperRequest := ⟨q.method, q.path, q.headers, some body⟩

theorem settled_of_forward {req : Request} {fx : List Effect} {x : Except (Halt UpstreamError) Response}
    (hx : kind.forward q.addr req q.peer = (fx, x)) (hpending : x ≠ .error .pending) (hpanic : x ≠ .error .panic) :
    Settled (.next q.tok :: (fx ++ [.release q.tok])) := by
  have hforwarded := forwarded kind ⟨⟨⟨[], .eof⟩, by simp⟩, q.addr, q.tok, q.peer, .done⟩ req
  simp only [hx] at hforwarded
  have hsettled := hforwarded.settled hpending hpanic q.tok []
  constructor
  · intro tok
    have h := hsettled.1 tok
    simp only [List.count_cons, List.count_append, List.count_nil] at h ⊢
    simpa using h
  · intro c
    have h := hsettled.2 c
    simp only [List.count_cons, List.count_append, List.count_nil] at h ⊢
    simpa using h

/-- **When forwarding panics**: if it gets to an answer that announces too much. -/
theorem forward_panics_iff (kind : ForwarderKind) (addr : String) (req : Request) (peer : Peer) :
    (kind.forward addr req peer).2 = .error .panic ↔ ∃ c answer, (∀ addrs, kind = .pool addrs → addr ∈ addrs) ∧
      peer = .conn c .done answer ∧ Overlong answer.1.ending answer.1.flat := by
  rw [(forwarded kind ⟨⟨⟨[], .eof⟩, by simp⟩, addr, 0, peer, .done⟩ req).panic_iff]
  constructor
  · rintro ⟨answer, ⟨haddr, c, hc⟩, hlong⟩
    exact ⟨c, answer, haddr, hc, hlong⟩
  · rintro ⟨c, answer, haddr, hc, hlong⟩
    exact ⟨answer, ⟨haddr, c, hc⟩, hlong⟩

/-- The handler when all of the body has come: what it makes of the outcome `x` of forwarding. -/
def http3Outcome (http : HttpCrate) (q : Http3Talk) :
    Except (Halt UpstreamError) Response → List Frame × Except (Halt Http3Error) Unit
  | .ok resp => respond q (http3Builder http resp) resp.body
  | .error (.err _) => respond q (Builder.status (some (200, [])) http 502) (utf8Encode "bad gateway".toList)
  | .error .pending => ([], .error .pending)
  | .error .panic => ([], .error .panic)

theorem handleHttp3Request_eof (heof : q.chunks.ending = .eof) {fx : List Effect} {x : Except (Halt UpstreamError) Response}
    (hx : kind.forward q.addr (upstreamRequest q.addr (q.hyper q.chunks.flat) q.chunks.flat) q.peer = (fx, x)) :
    (handleHttp3Request http kind q).1 = http3Outcome http q x ∧
      (x ≠ .error .pending → x ≠ .error .panic →
        (handleHttp3Request http kind q).2 = .next q.tok :: (fx ++ [.release q.tok])) := by
  unfold handleHttp3Request
  rw [recvBody_eq, heof]
  simp only [List.nil_append]
  rw [show q.chunks.segs.flatten = q.chunks.flat from rfl, show (⟨q.method, q.path, q.headers, some q.chunks.flat⟩ :
    HyperRequest) = q.hyper q.chunks.flat from rfl, hx]
  cases x with
  | ok resp => exact ⟨rfl, fun _ _ => rfl⟩
  | error a =>
    cases a with
    | err e => exact ⟨rfl, fun _ _ => rfl⟩
    | pending => exact ⟨rfl, fun h _ => absurd rfl h⟩
    | panic => exact ⟨rfl, fun _ h => absurd rfl h⟩

/-- What the handler makes of an outcome follows what the other handler makes of it. -/
theorem follows_outcome (h502 : http.status 502 = true) {fx : List Effect} {x : Except (Halt UpstreamError) Response}
    (hx : kind.forward q.addr (upstreamRequest q.addr (q.hyper q.chunks.flat) q.chunks.flat) q.peer = (fx, x)) :
    Follows q (handleHyperRequest http kind q.addr q.peer (q.hyper q.chunks.flat)) (http3Outcome http q x).1
      (http3Outcome http q x).2 := by
  have hsnd : (kind.forward q.addr (upstreamRequest q.addr (q.hyper q.chunks.flat) q.chunks.flat) q.peer).2 = x := by
    rw [hx]
  unfold handleHyperRequest
  simp only [Http3Talk.hyper] at hsnd ⊢
  cases x with
  | ok resp =>
    simp only [hsnd, http3Outcome, http3Builder_eq]
    cases http3Builder http resp with
    | none => exact .refused
    | some p =>
      obtain ⟨hpart, hall, hdone, hpanic⟩ := respond_some q p.1 p.2 resp.body
      exact .responded hpart hall hdone hpanic
  | error a =>
    cases a with
    | err e =>
      simp only [hsnd, http3Outcome, status_badGateway h502]
      obtain ⟨hpart, hall, hdone, hpanic⟩ := respond_some q 502 [] (utf8Encode "bad gateway".toList)
      exact .responded hpart hall hdone hpanic
    | pending =>
      simp only [hsnd]
      exact .waiting
    | panic =>
      simp only [hsnd]
      exact .panicked

theorem http3Outcome_panic_iff (x : Except (Halt UpstreamError) Response) :
    (http3Outcome http q x).2 = .error .panic ↔ x = .error .panic := by
  have hrespond : ∀ builder body, (respond q builder body).2 ≠ .error .panic := by
    intro builder body
    cases builder with
    | none => exact fun h => nomatch h
    | some p => exact (respond_some q p.1 p.2 body).2.2.2
  cases x with
  | ok resp => simp [http3Outcome, hrespond]
  | error a => cases a <;> simp [http3Outcome, hrespond]

/-- **The handler of HTTP/3 follows the handler of HTTP/2.**  For every request, every division of its body into chunks, every
upstream and every outcome of the sends: once all of the body has come, the handler sends what the other one responds, in this
order and nothing else, and all of it exactly if the sends return.  It panics only on an answer that announces more than can be
allocated.  When it neither waits nor panics, every token is released and every connection put back; and if the body does not
come to its end, nothing was taken and nothing is sent. -/
theorem http3_follows (h502 : http.status 502 = true) (kind : ForwarderKind) (q : Http3Talk) :
    (q.chunks.ending = .eof →
      Follows q (handleHyperRequest http kind q.addr q.peer (q.hyper q.chunks.flat)) (handleHttp3Request http kind q).1.1
        (handleHttp3Request http kind q).1.2) ∧
      ((handleHttp3Request http kind q).1.2 = .error .panic ↔ q.chunks.ending = .eof ∧ ∃ c answer,
        (∀ addrs, kind = .pool addrs → q.addr ∈ addrs) ∧ q.peer = .conn c .done answer ∧
          Overlong answer.1.ending answer.1.flat) ∧
      ((handleHttp3Request http kind q).1.2 ≠ .error .pending → (handleHttp3Request http kind q).1.2 ≠ .error .panic →
        Settled (handleHttp3Request http kind q).2) ∧
      (q.chunks.ending ≠ .eof → (handleHttp3Request http kind q).1.1 = [] ∧ (handleHttp3Request http kind q).2 = []) := by
  by_cases heof : q.chunks.ending = .eof
  · rcases hx : kind.forward q.addr (upstreamRequest q.addr (q.hyper q.chunks.flat) q.chunks.flat) q.peer with ⟨fx, x⟩
    obtain ⟨hresult, heffects⟩ : (handleHttp3Request http kind q).1 = http3Outcome http q x ∧ _ := handleHttp3Request_eof heof hx
    have hpanics := forward_panics_iff kind q.addr (upstreamRequest q.addr (q.hyper q.chunks.flat) q.chunks.flat) q.peer
    rw [hx] at hpanics
    rw [hresult, http3Outcome_panic_iff, hpanics]
    refine ⟨fun _ => follows_outcome h502 hx, ?_, fun hpending hpanic => ?_, fun hne => absurd heof hne⟩
    · exact (and_iff_right heof).symm
    · have hx_pending : x ≠ .error .pending := by
        rintro rfl
        exact hpending rfl
      have hx_panic : x ≠ .error .panic := fun h => hpanic ((http3Outcome_panic_iff x).2 h)
      rw [heffects hx_pending hx_panic]
      exact settled_of_forward hx hx_pending hx_panic
  · obtain ⟨a, ha, hne⟩ : ∃ a : Halt Http3Error, recvBody q.chunks.segs q.chunks.ending [] = .error a ∧ a ≠ .panic := by
      rw [recvBody_eq]
      cases hending : q.chunks.ending with
      | eof => exact absurd hending heof
      | failed => exact ⟨_, rfl, fun h => nomatch h⟩
      | «open» => exact ⟨_, rfl, fun h => nomatch h⟩
    have hresult : handleHttp3Request http kind q = (([], .error a), []) := by
      unfold handleHttp3Request
      rw [ha]
    rw [hresult]
    refine ⟨fun h => absurd h heof, ⟨fun h => ?_, fun h => absurd h.1 heof⟩, fun _ _ => ⟨fun _ => rfl, fun _ => rfl⟩,
      fun _ => ⟨rfl, rfl⟩⟩
    exact absurd (Except.error.inj h) hne

end Handler

/-- A request in two chunks; the upstream answers with the status 99, which is no `StatusCode`. -/
def lowTalk : Http3Talk where
  method := "POST".toList
  path := "/".toList
  headers := []
  chunks := ⟨[[104], [105]], .eof⟩
  addr := "a"
  tok := 0
  peer := .conn ⟨"a", 0⟩ .done (statusOnly "99")
  sendResponse := .done
  sendData := .done
  finish := .done

/-- The handler of HTTP/2 panics, this one returns the error and has released its token. -/
theorem http3_follows_low : Follows lowTalk .panicked [] (.error (.err .http)) ∧
    Settled (handleHttp3Request httpCrate .dial lowTalk).2 := by
  have hresult : (handleHttp3Request httpCrate .dial lowTalk).1 = ([], .error (.err .http)) := by decide
  have hhyper : handleHyperRequest httpCrate .dial lowTalk.addr lowTalk.peer (lowTalk.hyper lowTalk.chunks.flat) =
      .panicked := by
    decide
  obtain ⟨hfollows, -, hsettled, -⟩ := http3_follows (show httpCrate.status 502 = true by decide) .dial lowTalk
  have hfollows := hfollows rfl
  rw [hresult] at hfollows hsettled
  rw [hhyper] at hfollows
  exact ⟨hfollows, hsettled (fun h => nomatch h) fun h => nomatch h⟩

end ServiceProxy.ProxyHttp
