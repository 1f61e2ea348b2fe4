import ServiceProxy.Go.Forward
import ServiceProxy.Go.Sent
import ServiceProxy.HandleConn

/-!
# One connection of a client in Go (`HandleConn`)

`HandleConn` reads a request, asks the selector for an upstream, forwards the request and writes the answer.  It defers the
release of its token and the end of the connection, and so they happen however it ends.  A call is a function of what it meets
(`Talk`).  The library is a parameter: `http.ReadRequest`, `io.ReadAll`, `http.StatusText` and `http.ReadResponse`.

* `settled_handleConn` — a call that is over has ended the connection of its client, last and once; it has released its token,
  closed what it dialed and, unless it panicked, put back what it got;
* `replied` — a call that returns after a request was read has replied once, before that.
-/

namespace ServiceProxy.Go

open ServiceProxy.Lib
open ServiceProxy.ProxyHttp (Source Sent)

/-! ## The code -/

/-- `http.Request`, as far as the handlers use it, with `URL.RequestURI()` for the URL; `β` is the state of its body. -/
structure HttpRequest (β : Type) where
  method : List Char
  requestURI : List UInt8
  host : List UInt8
  header : Header
  body : β

/-- What `HandleConn` uses of the library on the connection of its client: `http.ReadRequest` on a new `bufio.Reader`, and
`io.ReadAll` on the body. -/
structure NetServer (β : Type) where
  readRequest : Stream UInt8 → Except (Halt IoError) (HttpRequest β)
  readAll : β → Except (Halt IoError) (List UInt8)

/-- What `Dial` or `Get` finds: an error, nothing, or a connection with what becomes of the request and the answer. -/
inductive Peer
  | unreachable (e : IoError)
  | stuck
  | conn (c : Conn) (sent : Sent) (answer : Source)

/-- What a call of `HandleConn` meets.  The selector returns `addr` and `tok`. -/
structure Talk where
  client : Source
  addr : String
  tok : ℤ
  peer : Peer
  reply : Sent

/-- `hangUp` closes the connection of the client. -/
inductive Effect
  | next (tok : ℤ) | release (tok : ℤ)
  | dial (c : Conn) | get (c : Conn) | write (c : Conn) (bytes : List UInt8) | put (c : Conn) (healthy : Bool) | close (c : Conn)
  | reply (bytes : List UInt8) | hangUp
  deriving DecidableEq, Repr

/-- A function that acts, and how it ends. -/
abbrev Acting (ε ρ : Type) := List Effect × Except (Halt ε) ρ

/-- `defer`: the function makes this call when it returns or panics. -/
def deferring {ε ρ : Type} (d : Effect) : Acting ε ρ → Acting ε ρ
  | (fx, .error .pending) => (fx, .error .pending)
  | (fx, x) => (fx ++ [d], x)

/-- What the writer is told. -/
def sentResult : Sent → Except (Halt IoError) Unit
  | .done => .ok ()
  | .failed e => .error (.err e)
  | .stuck => .error .pending

/-- `Forward`: `writeRequest`, then `readResponse`. -/
def forward {β : Type} (net : NetHttp β) (sent : Sent) (answer : Source) : Except (Halt IoError) Response := do
  sentResult sent
  let (resp, _) ← readResponse net answer.1
  .ok resp

/-- `ForwardHTTP`.  A `Dial` that finds nothing times out. -/
def forwardHTTP {β : Type} (net : NetHttp β) (req : Request) : Peer → Acting IoError Response
  | .unreachable e => ([], .error (.err e))
  | .stuck => ([], .error (.err .other))
  | .conn c sent answer => deferring (.close c) ([.dial c, .write c (writeRequest req)], forward net sent answer)

/-- The `Put` of `ForwardPooled`. -/
def putAfter (c : Conn) : Except (Halt IoError) Response → List Effect
  | .ok _ => [.put c true]
  | .error (.err _) => [.put c false]
  | .error _ => []

/-- `ForwardPooled`.  A `Get` that finds nothing waits: its context is never done. -/
def forwardPooled {β : Type} (net : NetHttp β) (req : Request) : Peer → Acting IoError Response
  | .unreachable e => ([], .error (.err e))
  | .stuck => ([], .error .pending)
  | .conn c sent answer =>
    (.get c :: .write c (writeRequest req) :: putAfter c (forward net sent answer), forward net sent answer)

/-- `DialForwarder` and `PoolForwarder`, with the addresses of its `Manager`. -/
inductive Forwarder
  | dial | pool (addrs : List String)
  deriving DecidableEq, Repr

/-- `Forward` of a `Forwarder`.  An address without a pool gives a `nil` pool, and `Get` of it panics. -/
def Forwarder.forward {β : Type} (net : NetHttp β) (f : Forwarder) (addr : String) (req : Request) (peer : Peer) :
    Acting IoError Response :=
  match f with
  | .dial => forwardHTTP net req peer
  | .pool addrs => if addr ∈ addrs then forwardPooled net req peer else ([], .error .panic)

/-- The error of a write is logged or ignored. -/
def replyResult : Sent → Except (Halt IoError) Unit
  | .stuck => .error .pending
  | _ => .ok ()

def HttpRequest.upstream {α : Type} (r : HttpRequest α) (body : List UInt8) : Request where
  method := r.method
  path := r.requestURI
  host := r.host
  header := r.header
  body := body

/-- `HandleConn` from `selector.Next()` on, up to its deferred calls. -/
def answerRequest {β : Type} (net : NetHttp β) (statusText : ℕ → List UInt8) (f : Forwarder) (q : Talk) (req : Request) :
    Acting IoError Unit :=
  match f.forward net q.addr req q.peer with
  | (fx, .ok resp) => (.next q.tok :: (fx ++ [.reply (writeResponse statusText resp)]), replyResult q.reply)
  | (fx, .error (.err _)) => (.next q.tok :: (fx ++ [.reply (writeError statusText 502)]), replyResult q.reply)
  | (fx, .error .pending) => (.next q.tok :: fx, .error .pending)
  | (fx, .error .panic) => (.next q.tok :: fx, .error .panic)

/-- `HandleConn`. -/
def handleConn {α β : Type} (server : NetServer α) (net : NetHttp β) (statusText : ℕ → List UInt8) (f : Forwarder)
    (q : Talk) : Acting IoError Unit :=
  deferring .hangUp <|
    match server.readRequest q.client.1 with
    | .error (.err _) => ([], .ok ())
    | .error .pending => ([], .error .pending)
    | .error .panic => ([], .error .panic)
    | .ok r =>
      match server.readAll r.body with
      | .error (.err _) => ([.reply (writeError statusText 400)], replyResult q.reply)
      | .error .pending => ([], .error .pending)
      | .error .panic => ([], .error .panic)
      | .ok body => deferring (.release q.tok) (answerRequest net statusText f q (r.upstream body))

/-! ## What the calls leave behind -/

def Effect.onUpstream : Effect → Bool
  | .dial _ | .get _ | .write _ _ | .put _ _ | .close _ => true
  | .next _ | .release _ | .reply _ | .hangUp => false

/-- Every token is released, and every connection that was dialed is closed. -/
structure Released (fx : List Effect) : Prop where
  tokens : ∀ tok, fx.count (.next tok) = fx.count (.release tok)
  dialed : ∀ c, fx.count (.dial c) = fx.count (.close c)

/-- Every connection is put back. -/
def PutBack (fx : List Effect) : Prop := ∀ c, fx.count (.get c) = fx.count (.put c true) + fx.count (.put c false)

section Effects

variable {ε ρ : Type} {e : Effect} {fx : List Effect} {p : Acting ε ρ}

@[simp] theorem deferring_snd (d : Effect) (p : Acting ε ρ) : (deferring d p).2 = p.2 := by
  unfold deferring
  split <;> rfl

theorem deferring_fst (d : Effect) (h : p.2 ≠ .error .pending) : (deferring d p).1 = p.1 ++ [d] := by
  unfold deferring
  split
  · exact absurd rfl h
  · rfl

theorem count_onUpstream (h : ∀ e ∈ fx, e.onUpstream = true) (he : e.onUpstream = false) : fx.count e = 0 := by
  refine List.count_eq_zero.2 fun hmem => ?_
  have := h e hmem
  rw [he] at this
  cases this

end Effects

section Forward

variable {β : Type} {net : NetHttp β} {f : Forwarder} {addr : String} {req : Request} {peer : Peer} {fx : List Effect}
  {x : Except (Halt IoError) Response}

/-- **What forwarding can do**: it exchanges messages over a connection that it dials or gets, or it does nothing. -/
inductive Forwarded (net : NetHttp β) (req : Request) : List Effect → Except (Halt IoError) Response → Prop
  | dialed (c : Conn) {x : Except (Halt IoError) Response} : x ≠ .error .pending →
      Forwarded net req [.dial c, .write c (writeRequest req), .close c] x
  | dialing (c : Conn) : Forwarded net req [.dial c, .write c (writeRequest req)] (.error .pending)
  | pooled (c : Conn) (x : Except (Halt IoError) Response) :
      Forwarded net req (.get c :: .write c (writeRequest req) :: putAfter c x) x
  | none (a : Halt IoError) : Forwarded net req [] (.error a)

theorem forwarded (net : NetHttp β) (f : Forwarder) (addr : String) (req : Request) (peer : Peer) :
    Forwarded net req (f.forward net addr req peer).1 (f.forward net addr req peer).2 := by
  cases f with
  | dial =>
    cases peer with
    | unreachable e => exact .none _
    | stuck => exact .none _
    | conn c sent answer =>
      simp only [Forwarder.forward, forwardHTTP, deferring_snd]
      by_cases hpending : forward net sent answer = .error .pending
      · rw [hpending]
        exact .dialing c
      · rw [deferring_fst _ hpending]
        exact .dialed c hpending
  | pool addrs =>
    simp only [Forwarder.forward]
    split_ifs
    · cases peer with
      | unreachable e => exact .none _
      | stuck => exact .none _
      | conn c sent answer => exact .pooled c _
    · exact .none _

theorem onUpstream_putAfter (c : Conn) (x : Except (Halt IoError) Response) : ∀ e ∈ putAfter c x, e.onUpstream = true := by
  unfold putAfter
  split <;> simp [Effect.onUpstream]

/-- Forwarding leaves the selector and the client alone. -/
theorem Forwarded.onUpstream (h : Forwarded net req fx x) : ∀ e ∈ fx, e.onUpstream = true := by
  cases h with
  | dialed | dialing => simp [Effect.onUpstream]
  | pooled c =>
    rw [List.forall_mem_cons, List.forall_mem_cons]
    exact ⟨rfl, rfl, onUpstream_putAfter c x⟩
  | none => simp

/-- What it dialed it has closed, when it is over. -/
theorem Forwarded.dialed_closed (h : Forwarded net req fx x) (hx : x ≠ .error .pending) (c : Conn) :
    fx.count (.dial c) = fx.count (.close c) := by
  cases h with
  | dialed => simp [List.count_cons]
  | dialing => exact absurd rfl hx
  | pooled =>
    unfold putAfter
    split <;> simp
  | none => rfl

/-- What it got it has put back, when it returns. -/
theorem Forwarded.putBack (h : Forwarded net req fx x) (hx : x ≠ .error .pending) (hpanic : x ≠ .error .panic) :
    PutBack fx := by
  intro c
  cases h with
  | dialed => simp
  | dialing => exact absurd rfl hx
  | pooled =>
    unfold putAfter
    split
    · simp [List.count_cons]
    · simp [List.count_cons]
    · rename_i a hne
      cases a with
      | err e => exact absurd rfl (hne e)
      | pending => exact absurd rfl hx
      | panic => exact absurd rfl hpanic
  | none => rfl

/-- **A handler that releases the token behind its replies has settled everything.** -/
theorem Forwarded.settled (h : Forwarded net req fx x) (hx : x ≠ .error .pending) (tok : ℤ) (replies : List (List UInt8)) :
    Released (.next tok :: (fx ++ (replies.map .reply ++ [.release tok]))) ∧
      .hangUp ∉ Effect.next tok :: (fx ++ (replies.map .reply ++ [.release tok])) ∧
      (x ≠ .error .panic → PutBack (.next tok :: (fx ++ (replies.map .reply ++ [.release tok])))) := by
  have hfx := fun e he => count_onUpstream (e := e) h.onUpstream he
  have hreplies : ∀ e : Effect, (∀ bytes, e ≠ .reply bytes) → (replies.map Effect.reply).count e = 0 := by
    intro e he
    refine List.count_eq_zero.2 fun hmem => ?_
    obtain ⟨bytes, -, heq⟩ := List.mem_map.1 hmem
    exact he bytes heq.symm
  refine ⟨⟨fun t => ?_, fun c => ?_⟩, List.count_eq_zero.1 ?_, fun hpanic c => ?_⟩
  · simp [List.count_cons, hfx (.next t) rfl, hfx (.release t) rfl, hreplies (.next t), hreplies (.release t)]
  · simp [h.dialed_closed hx c, hreplies (.dial c), hreplies (.close c)]
  · simp [hfx .hangUp rfl, hreplies .hangUp]
  · simp [h.putBack hx hpanic c, hreplies (.get c), hreplies (.put c true), hreplies (.put c false)]

end Forward

section Call

variable {α β : Type} {server : NetServer α} {net : NetHttp β} {statusText : ℕ → List UInt8} {f : Forwarder} {q : Talk}
  {fx : List Effect} {x : Except (Halt IoError) Unit}

/-- The reply to what the forwarder returns. -/
inductive Replied (statusText : ℕ → List UInt8) (x : Except (Halt IoError) Response) : List UInt8 → Prop
  | answer {resp : Response} : x = .ok resp → Replied statusText x (writeResponse statusText resp)
  | badGateway {e : IoError} : x = .error (.err e) → Replied statusText x (writeError statusText 502)

/-- **What a call can do** when it is over, up to the end of the connection. -/
inductive Handled (server : NetServer α) (net : NetHttp β) (statusText : ℕ → List UInt8) (f : Forwarder) (q : Talk) :
    List Effect → Except (Halt IoError) Unit → Prop
  | unread (x : Except (Halt IoError) Unit) :
      (∀ r body, server.readRequest q.client.1 = .ok r → server.readAll r.body ≠ .ok body) →
      Handled server net statusText f q [] x
  | badRequest {r : HttpRequest α} {e : IoError} : server.readRequest q.client.1 = .ok r →
      server.readAll r.body = .error (.err e) → Handled server net statusText f q [.reply (writeError statusText 400)] (.ok ())
  | replied {r : HttpRequest α} {body : List UInt8} {fx : List Effect} {x : Except (Halt IoError) Response}
      {bytes : List UInt8} : server.readRequest q.client.1 = .ok r → server.readAll r.body = .ok body →
      f.forward net q.addr (r.upstream body) q.peer = (fx, x) → Replied statusText x bytes →
      Handled server net statusText f q (.next q.tok :: (fx ++ [.reply bytes, .release q.tok])) (.ok ())
  | panicked {r : HttpRequest α} {body : List UInt8} {fx : List Effect} :
      f.forward net q.addr (r.upstream body) q.peer = (fx, .error .panic) →
      Handled server net statusText f q (.next q.tok :: (fx ++ [.release q.tok])) (.error .panic)

theorem replyResult_eq {sent : Sent} (h : replyResult sent ≠ .error .pending) : replyResult sent = .ok () := by
  cases sent with
  | stuck => exact absurd rfl h
  | done | failed => rfl

/-- **Inversion of `HandleConn`.** -/
theorem handled (hover : (handleConn server net statusText f q).2 ≠ .error .pending) :
    ∃ fx, (handleConn server net statusText f q).1 = fx ++ [.hangUp] ∧
      Handled server net statusText f q fx (handleConn server net statusText f q).2 := by
  unfold handleConn at hover ⊢
  rw [deferring_snd] at hover ⊢
  rw [deferring_fst _ hover]
  refine ⟨_, rfl, ?_⟩
  cases hread : server.readRequest q.client.1 with
  | error a =>
    rw [hread] at hover
    have hunread : ∀ r body, server.readRequest q.client.1 = .ok r → server.readAll r.body ≠ .ok body := by
      intro r body hok
      rw [hread] at hok
      cases hok
    cases a with
    | err e => exact .unread _ hunread
    | pending => exact absurd rfl hover
    | panic => exact .unread _ hunread
  | ok r =>
    rw [hread] at hover
    simp only at hover ⊢
    cases hall : server.readAll r.body with
    | error a =>
      rw [hall] at hover
      cases a with
      | err e =>
        simp only at hover ⊢
        rw [replyResult_eq hover]
        exact .badRequest hread hall
      | pending => exact absurd rfl hover
      | panic =>
        refine .unread _ fun r' body hok => ?_
        obtain rfl := Except.ok.inj (hread.symm.trans hok)
        rw [hall]
        nofun
    | ok body =>
      rw [hall] at hover
      simp only [deferring_snd] at hover ⊢
      rw [deferring_fst _ hover]
      unfold answerRequest at hover ⊢
      rcases hforward : f.forward net q.addr (r.upstream body) q.peer with ⟨fx, x⟩
      rw [hforward] at hover
      cases x with
      | ok resp =>
        simp only at hover ⊢
        rw [replyResult_eq hover]
        simpa using Handled.replied hread hall hforward (.answer rfl)
      | error a =>
        cases a with
        | err e =>
          simp only at hover ⊢
          rw [replyResult_eq hover]
          simpa using Handled.replied hread hall hforward (.badGateway rfl)
        | pending => exact absurd rfl hover
        | panic => exact .panicked hforward

theorem Handled.settled (h : Handled server net statusText f q fx x) :
    Released fx ∧ .hangUp ∉ fx ∧ (x = .ok () → PutBack fx) := by
  cases h with
  | unread => exact ⟨⟨fun _ => rfl, fun _ => rfl⟩, List.not_mem_nil, fun _ _ => rfl⟩
  | badRequest => exact ⟨⟨fun _ => rfl, fun _ => rfl⟩, by simp, fun _ _ => rfl⟩
  | @replied r body fx x bytes hread hall hforward hreplied =>
    have hforwarded := forwarded net f q.addr (r.upstream body) q.peer
    rw [hforward] at hforwarded
    have hx : x ≠ .error .pending ∧ x ≠ .error .panic := by
      cases hreplied with
      | answer h => subst h; exact ⟨nofun, nofun⟩
      | badGateway h => subst h; exact ⟨nofun, nofun⟩
    obtain ⟨hreleased, hnot, hput⟩ := hforwarded.settled hx.1 q.tok [bytes]
    exact ⟨hreleased, hnot, fun _ => hput hx.2⟩
  | @panicked r body fx hforward =>
    have hforwarded := forwarded net f q.addr (r.upstream body) q.peer
    rw [hforward] at hforwarded
    obtain ⟨hreleased, hnot, -⟩ := hforwarded.settled nofun q.tok []
    exact ⟨hreleased, hnot, nofun⟩

/-- **A call that returns after a request was read has replied once**, before it released its token. -/
theorem replied {r : HttpRequest α} {body : List UInt8} (hread : server.readRequest q.client.1 = .ok r)
    (hall : server.readAll r.body = .ok body) (hreturned : (handleConn server net statusText f q).2 = .ok ()) :
    ∃ fx x bytes, f.forward net q.addr (r.upstream body) q.peer = (fx, x) ∧ Replied statusText x bytes ∧
      (handleConn server net statusText f q).1 = .next q.tok :: (fx ++ [.reply bytes, .release q.tok, .hangUp]) := by
  have hover : (handleConn server net statusText f q).2 ≠ .error .pending := by
    rw [hreturned]
    nofun
  obtain ⟨fx₀, hfx₀, hhandled⟩ := handled hover
  rw [hreturned] at hhandled
  cases hhandled with
  | unread _ hunread => exact absurd hall (hunread r body hread)
  | badRequest hread' hall' =>
    obtain rfl := Except.ok.inj (hread.symm.trans hread')
    rw [hall] at hall'
    cases hall'
  | @replied r' body' fx x bytes hread' hall' hx hreplied =>
    obtain rfl := Except.ok.inj (hread.symm.trans hread')
    obtain rfl := Except.ok.inj (hall.symm.trans hall')
    exact ⟨fx, x, bytes, hx, hreplied, by rw [hfx₀]; simp⟩

end Call

end ServiceProxy.Go
