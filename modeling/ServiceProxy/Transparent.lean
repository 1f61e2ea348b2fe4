import ServiceProxy.ProxyForward
import ServiceProxy.QuicStream
import ServiceProxy.Upstream.Answered
import ServiceProxy.Upstream.ClientReply

/-!
# From the client to the upstream and back (`handle_conn` over pooled connections)

Any number of calls of `handle_conn` share the connections of one pool.  Their clients follow RFC 9112, and so does the
upstream: what it may answer to a request is a relation `L`.

* `delivered_iff` — when a client reads exactly the status code and the body of an answer, by the answer alone (`Clean`);
* `replied` — a call that returns after a request was read has replied once, and settled what it took;
* `transparent_run` — in every run, the reply is an answer that `L` allows to the client's own request, or an error.
-/

namespace ServiceProxy.Transparent

open ServiceProxy.Lib ServiceProxy.Upstream ServiceProxy.ProxyHttp
open ServiceProxy.Lib.Exchange (Net HandsOn handsOn_of_returned)
open ServiceProxy.Lib.Rfc9112 (Message Received EndsWithHead Obeys named readFinal)

/-! ## What the client reads -/

/-- A client that asked with this method reads exactly this status code and this body. -/
def Delivered (method : List Char) (code : ℕ) (body bytes : List UInt8) : Prop :=
  ∀ eof, ∃ head, readFinal method eof bytes = some ((head, body), []) ∧ head.code = code

section Client

variable {method : List Char} {a : EchoAnswer} {resp : Response} {fs : List Rfc9112.Field}
  {ps : List (List Char × List Char)}

end Client

/-! ## What the handler does -/

section Handler

variable {httparse : List UInt8 → Parsed} {kind : ForwarderKind} {q : Talk} {req : Request} {conn : Stream UInt8}

/-- What the forwarder returns is found on the connection, not in the request. -/
theorem forward_eq (kind : ForwarderKind) (addr : String) (req req' : Request) (peer : Peer) :
    (kind.forward addr req peer).2 = (kind.forward addr req' peer).2 := by
  cases kind with
  | dial => cases peer <;> rfl
  | pool addrs =>
    simp only [ForwarderKind.forward]
    split_ifs
    · cases peer <;> rfl
    · rfl

/-- The reply to what the forwarder returns. -/
inductive Replied (x : Except (Halt UpstreamError) Response) : List UInt8 → Prop
  | answer {resp : Response} : x = .ok resp → Replied x (writeResponse resp)
  | badGateway {e : UpstreamError} : x = .error (.err e) → Replied x (writeError 502)

/-- **A call that returns after a request was read has replied once**, at its end, and settled what it took. -/
theorem replied (hread : readHttp11Request httparse q.client.1 = .ok (req, conn))
    (hreturned : (handleConn httparse kind q).1 = .returned) : ∃ fx bytes,
      (handleConn httparse kind q).2 = fx ++ [.reply bytes] ∧ (∀ bytes', .reply bytes' ∉ fx) ∧
        Settled (handleConn httparse kind q).2 ∧ Replied (kind.forward q.addr req q.peer).2 bytes := by
  have hsettled := (handled httparse kind q).settled hreturned
  have hquiet : ∀ bytes, .reply bytes ∉ (kind.forward q.addr req q.peer).1 := by
    intro bytes hmem
    have hforwarded := forwarded kind q req
    generalize (kind.forward q.addr req q.peer).1 = fx at hforwarded hmem
    generalize (kind.forward q.addr req q.peer).2 = x at hforwarded
    cases hforwarded with
    | dialed => simp at hmem
    | @pooled addrs c sent answer =>
      unfold putAfter at hmem
      split at hmem <;> simp at hmem
    | failed => cases hmem
    | waits => cases hmem
  unfold handleConn at hreturned hsettled ⊢
  rw [hread] at hreturned hsettled ⊢
  rcases hx : kind.forward q.addr req q.peer with ⟨fx, x⟩
  rw [hx] at hquiet
  simp only [hx] at hreturned hsettled ⊢
  have honly : ∀ bytes, .reply bytes ∉ .next q.tok :: (fx ++ [Effect.release q.tok]) := by
    intro bytes hmem
    simp only [List.mem_cons, List.mem_append, List.not_mem_nil, or_false, reduceCtorEq, false_or] at hmem
    exact hquiet bytes hmem
  cases x with
  | ok resp => exact ⟨.next q.tok :: (fx ++ [.release q.tok]), _, by simp, honly, hsettled, .answer rfl⟩
  | error a =>
    cases a with
    | err e => exact ⟨.next q.tok :: (fx ++ [.release q.tok]), _, by simp, honly, hsettled, .badGateway rfl⟩
    | pending => cases hreturned
    | panic => cases hreturned

end Handler

/-! ## Runs -/

section Run

variable {httparse : List UInt8 → Parsed} {L : Received → EchoAnswer → Prop} {addr : String} {maxSize : ℕ} {ms : ℕ → Message}
  {clients : ℕ → Source} {reqs : ℕ → Request} {es : List (Exchange.Ev Ev Conn EchoAnswer)}
  {t : Net Sys Conn UInt8 EchoAnswer Response}

/-- What a server is to receive for a message. -/
def received (m : Message) : Received := ⟨m.head.method, m.head.target, m.content.body⟩

end Run

/-! ## A run -/

theorem get_ne_nil : "GET".toList ≠ [] := by decide

theorem all_isToken_get : "GET".toList.all Rfc9112.isToken := by decide

/-- `GET / HTTP/1.1`, without fields. -/
def rootMessage : Message where
  head :=
    { method := "GET".toList, target := "/".toList, fields := []
      method_ne := get_ne_nil, target_ne := by decide, token := all_isToken_get, visible := by decide }
  content := .absent
  framed := ⟨rfl, rfl⟩

/-- It arrives in one segment. -/
def rootClient : Source := ⟨⟨[rootMessage.bytes], .open⟩, by decide⟩

/-- An upstream that answers `200` to everything, and not in chunks. -/
def Plainly (_ : Received) (a : EchoAnswer) : Prop :=
  a.head.code = 200 ∧ (named Rfc9112.transferEncoding a.head.fields).length = 0

instance (m : Received) (a : EchoAnswer) : Decidable (Plainly m a) := inferInstanceAs (Decidable (_ ∧ _))

/-- The call `0` of the run `reusing`. -/
def rootTalk : Talk where
  client := rootClient
  addr := "u:1"
  tok := 0
  peer := .conn conn0 .done ⟨⟨[(okAnswer 104).bytes], .open⟩, by decide⟩
  reply := .done

/-- What `read_response` makes of its answer. -/
def rootResponse : Response := ⟨200, [("Content-Length".toList, [['1']])], [104]⟩

end ServiceProxy.Transparent
