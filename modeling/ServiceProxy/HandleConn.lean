import ServiceProxy.ProxyFraming
import ServiceProxy.Upstream.Overlong
import ServiceProxy.Upstream.Pool

/-!
# One connection of a client (`handle_conn`)

`handle_conn` reads a request, asks the selector for an upstream, forwards the request and writes the answer.  A call is a
function of what it meets (`Talk`): the bytes of the client and of the upstream with their segments and their ends, what
`next` and `get` return, and what becomes of the writes.  Its result is how it ends and what it did (`Effect`).

Buffers for bytes that have arrived are not too large; the sizes that come from the messages may be.

* `handled` — what a call can do;
* `Handled.panicked_iff` — it panics exactly if the client or the upstream announces more than can be allocated;
* `Handled.settled` — when it returns, what it took is given back.
-/

namespace ServiceProxy.ProxyHttp

open ServiceProxy.Lib ServiceProxy.Upstream

/-! ## The code -/

/-- The bytes of a party in the segments in which they arrive; none is empty. -/
abbrev Source := {s : Stream UInt8 // ∀ seg ∈ s.segs, seg ≠ []}

/-- What becomes of a `write_all`. -/
inductive Sent
  | done | failed (e : IoError) | stuck
  deriving DecidableEq, Repr

/-- What `dial` or `get` finds: an error, nothing, or a connection with what becomes of the request and the answer. -/
inductive Peer
  | unreachable (e : IoError)
  | stuck
  | conn (c : Conn) (sent : Sent) (answer : Source)

/-- What a call of `handle_conn` meets.  The selector returns `addr` and `tok`. -/
structure Talk where
  client : Source
  addr : String
  tok : ℤ
  peer : Peer
  reply : Sent

inductive Effect
  | next (tok : ℤ)
  | get (c : Conn)
  | write (c : Conn) (bytes : List UInt8)
  | put (c : Conn) (healthy : Bool)
  | release (tok : ℤ)
  | reply (bytes : List UInt8)
  deriving DecidableEq, Repr

inductive Outcome
  | returned | waiting | panicked
  deriving DecidableEq, Repr

/-- `enum ForwarderKind`, the pools by their addresses. -/
inductive ForwarderKind
  | dial | pool (addrs : List String)
  deriving DecidableEq, Repr

def Sent.result : Sent → Except (Halt UpstreamError) Unit
  | .done => .ok ()
  | .failed e => .error (.err (.io e))
  | .stuck => .error .pending

/-- `forward`: `write_request`, then `read_response`. -/
def forward (sent : Sent) (answer : Source) : Except (Halt UpstreamError) Response := do
  sent.result
  let (resp, _) ← readResponse answer.1
  .ok resp

/-- `forward_http`.  A `dial` that finds nothing times out. -/
def forwardHttp (req : Request) : Peer → List Effect × Except (Halt UpstreamError) Response
  | .unreachable e => ([], .error (.err (.dial e)))
  | .stuck => ([], .error (.err (.dial .other)))
  | .conn c sent answer => ([.write c (writeRequest req)], forward sent answer)

/-- The `put` of `forward_pooled`. -/
def putAfter (c : Conn) : Except (Halt UpstreamError) Response → List Effect
  | .ok _ => [.put c true]
  | .error (.err _) => [.put c false]
  | .error _ => []

/-- `forward_pooled`.  A `get` that finds nothing waits. -/
def forwardPooled (req : Request) : Peer → List Effect × Except (Halt UpstreamError) Response
  | .unreachable e => ([], .error (.err (.dial e)))
  | .stuck => ([], .error .pending)
  | .conn c sent answer =>
    (.get c :: .write c (writeRequest req) :: putAfter c (forward sent answer), forward sent answer)

/-- `ForwarderKind::forward`. -/
def ForwarderKind.forward (kind : ForwarderKind) (addr : String) (req : Request) (peer : Peer) :
    List Effect × Except (Halt UpstreamError) Response :=
  match kind with
  | .dial => forwardHttp req peer
  | .pool addrs =>
    if addr ∈ addrs then forwardPooled req peer
    else ([], .error (.err (.parse ("no pool for ".toList ++ addr.toList))))

/-- The call returns when the answer is written, or cannot be. -/
def Sent.outcome : Sent → Outcome
  | .stuck => .waiting
  | _ => .returned

/-- `handle_conn`. -/
def handleConn (httparse : List UInt8 → Parsed) (kind : ForwarderKind) (t : Talk) : Outcome × List Effect :=
  match readHttp11Request httparse t.client.1 with
  | .error (.err _) => (.returned, [])
  | .error .pending => (.waiting, [])
  | .error .panic => (.panicked, [])
  | .ok (req, _) =>
    match kind.forward t.addr req t.peer with
    | (fx, .ok resp) => (t.reply.outcome, .next t.tok :: (fx ++ [.release t.tok, .reply (writeResponse resp)]))
    | (fx, .error (.err _)) => (t.reply.outcome, .next t.tok :: (fx ++ [.release t.tok, .reply (writeError 502)]))
    | (fx, .error .pending) => (.waiting, .next t.tok :: fx)
    | (fx, .error .panic) => (.panicked, .next t.tok :: fx)

/-! ## What a call can do -/

/-- Every token is released, and every connection put back. -/
def Settled (fx : List Effect) : Prop :=
  (∀ tok, fx.count (.next tok) = fx.count (.release tok)) ∧
    ∀ c, fx.count (.get c) = fx.count (.put c true) + fx.count (.put c false)

/-- The forwarder gets as far as the answer `answer`. -/
def Answered (kind : ForwarderKind) (t : Talk) (answer : Source) : Prop :=
  (∀ addrs, kind = .pool addrs → t.addr ∈ addrs) ∧ ∃ c, t.peer = .conn c .done answer

/-- **Nobody announces more than can be allocated**: neither the client nor, if the request gets that far, the upstream. -/
structure Harmless (httparse : List UInt8 → Parsed) (kind : ForwarderKind) (t : Talk) : Prop where
  client : ¬ Excessive httparse t.client.1
  upstream : Received httparse t.client.1 → ∀ answer, Answered kind t answer →
    ¬ Overlong answer.1.ending answer.1.flat

/-- Nobody keeps the call waiting. -/
structure Ends (kind : ForwarderKind) (t : Talk) : Prop where
  client : t.client.1.ending ≠ .open
  pool : t.peer = .stuck → kind = .dial
  upstream : ∀ c sent answer, t.peer = .conn c sent answer → sent ≠ .stuck ∧ answer.1.ending ≠ .open
  reply : t.reply ≠ .stuck

section Call

variable {httparse : List UInt8 → Parsed} {kind : ForwarderKind} {t : Talk} {sent : Sent} {answer : Source} {c : Conn}
  {req : Request} {fx : List Effect} {x : Except (Halt UpstreamError) Response}

theorem forward_panic_iff :
    forward sent answer = .error .panic ↔ sent = .done ∧ Overlong answer.1.ending answer.1.flat := by
  unfold forward
  cases sent with
  | done =>
    constructor
    · intro h
      rcases bind_eq_error.1 h with h | ⟨-, -, h⟩
      · cases h
      · rcases bind_eq_error.1 h with h | ⟨p, -, h⟩
        · obtain ⟨hlong, -⟩ | hregular := readResponse_error answer.2 h
          · exact ⟨rfl, hlong⟩
          · exact hregular.elim
        · cases h
    · rintro ⟨-, hlong⟩
      refine bind_eq_error.2 (.inr ⟨(), rfl, ?_⟩)
      exact bind_eq_error.2 (.inl (readResponse_overlong answer.2 hlong))
  | failed e =>
    constructor
    · intro h
      cases h
    · rintro ⟨h, -⟩
      cases h
  | stuck =>
    constructor
    · intro h
      cases h
    · rintro ⟨h, -⟩
      cases h

theorem forward_ne_pending (hsent : sent ≠ .stuck) (hanswer : answer.1.ending ≠ .open) :
    forward sent answer ≠ .error .pending := by
  intro h
  unfold forward at h
  rcases bind_eq_error.1 h with h | ⟨-, -, h⟩
  · cases sent with
    | done => cases h
    | failed e => cases h
    | stuck => exact hsent rfl
  · rcases bind_eq_error.1 h with h | ⟨p, -, h⟩
    · obtain ⟨-, hpanic⟩ | hregular := readResponse_error answer.2 h
      · cases hpanic
      · exact hanswer hregular
    · cases h

/-- **What forwarding can do**: it exchanges messages over a connection, finds no connection, or waits for one. -/
inductive Forwarded (kind : ForwarderKind) (t : Talk) (req : Request) :
    List Effect → Except (Halt UpstreamError) Response → Prop
  | dialed {c : Conn} {sent : Sent} {answer : Source} : kind = .dial → t.peer = .conn c sent answer →
      Forwarded kind t req [.write c (writeRequest req)] (forward sent answer)
  | pooled {addrs : List String} {c : Conn} {sent : Sent} {answer : Source} : kind = .pool addrs → t.addr ∈ addrs →
      t.peer = .conn c sent answer →
      Forwarded kind t req (.get c :: .write c (writeRequest req) :: putAfter c (forward sent answer)) (forward sent answer)
  | failed (e : UpstreamError) : (∀ answer, ¬ Answered kind t answer) → Forwarded kind t req [] (.error (.err e))
  | waits : t.peer = .stuck → kind ≠ .dial → Forwarded kind t req [] (.error .pending)

theorem forwarded (kind : ForwarderKind) (t : Talk) (req : Request) :
    Forwarded kind t req (kind.forward t.addr req t.peer).1 (kind.forward t.addr req t.peer).2 := by
  cases kind with
  | dial =>
    simp only [ForwarderKind.forward]
    cases hpeer : t.peer with
    | unreachable e =>
      refine .failed _ ?_
      rintro answer ⟨-, c, hc⟩
      rw [hpeer] at hc
      cases hc
    | stuck =>
      refine .failed _ ?_
      rintro answer ⟨-, c, hc⟩
      rw [hpeer] at hc
      cases hc
    | conn c sent answer => exact .dialed rfl hpeer
  | pool addrs =>
    simp only [ForwarderKind.forward]
    split_ifs with hmem
    · cases hpeer : t.peer with
      | unreachable e =>
        refine .failed _ ?_
        rintro answer ⟨-, c, hc⟩
        rw [hpeer] at hc
        cases hc
      | stuck => exact .waits hpeer nofun
      | conn c sent answer => exact .pooled rfl hmem hpeer
    · refine .failed _ ?_
      rintro answer ⟨haddr, -⟩
      exact hmem (haddr addrs rfl)

theorem answered_iff (hpeer : t.peer = .conn c sent answer) (haddr : ∀ addrs, kind = .pool addrs → t.addr ∈ addrs)
    (answer' : Source) : Answered kind t answer' ↔ sent = .done ∧ answer = answer' := by
  constructor
  · rintro ⟨-, c', hc'⟩
    rw [hpeer, Peer.conn.injEq] at hc'
    exact hc'.2
  · rintro ⟨rfl, rfl⟩
    exact ⟨haddr, c, hpeer⟩

/-- **Forwarding panics** exactly if it gets to an answer that announces too much. -/
theorem Forwarded.panic_iff (h : Forwarded kind t req fx x) :
    x = .error .panic ↔ ∃ answer, Answered kind t answer ∧ Overlong answer.1.ending answer.1.flat := by
  -- over a connection it is the one answer that counts
  have hconn : ∀ {c : Conn} {sent : Sent} {answer : Source}, t.peer = .conn c sent answer →
      (∀ addrs, kind = .pool addrs → t.addr ∈ addrs) → (forward sent answer = .error .panic ↔
        ∃ answer, Answered kind t answer ∧ Overlong answer.1.ending answer.1.flat) := by
    intro c sent answer hpeer haddr
    simp only [answered_iff hpeer haddr, forward_panic_iff]
    constructor
    · rintro ⟨hsent, hlong⟩
      exact ⟨answer, ⟨hsent, rfl⟩, hlong⟩
    · rintro ⟨_, ⟨hsent, rfl⟩, hlong⟩
      exact ⟨hsent, hlong⟩
  cases h with
  | dialed hkind hpeer => exact hconn hpeer fun addrs hpool => by rw [hkind] at hpool; cases hpool
  | pooled hkind haddr hpeer =>
    refine hconn hpeer fun addrs hpool => ?_
    obtain rfl := ForwarderKind.pool.inj (hkind.symm.trans hpool)
    exact haddr
  | failed e hnone =>
    constructor
    · nofun
    · rintro ⟨answer, hanswer, -⟩
      exact absurd hanswer (hnone answer)
  | waits hpeer hkind =>
    constructor
    · nofun
    · rintro ⟨answer, ⟨-, c, hc⟩, -⟩
      rw [hpeer] at hc
      cases hc

theorem Forwarded.ne_pending (h : Forwarded kind t req fx x) (hends : Ends kind t) : x ≠ .error .pending := by
  cases h with
  | dialed hkind hpeer =>
    obtain ⟨hsent, hanswer⟩ := hends.upstream _ _ _ hpeer
    exact forward_ne_pending hsent hanswer
  | pooled hkind haddr hpeer =>
    obtain ⟨hsent, hanswer⟩ := hends.upstream _ _ _ hpeer
    exact forward_ne_pending hsent hanswer
  | failed e hnone => nofun
  | waits hpeer hkind => exact absurd (hends.pool hpeer) hkind

theorem putAfter_eq (hpending : x ≠ .error .pending) (hpanic : x ≠ .error .panic) (c : Conn) :
    ∃ healthy, putAfter c x = [.put c healthy] := by
  cases x with
  | ok resp => exact ⟨true, rfl⟩
  | error a =>
    cases a with
    | err e => exact ⟨false, rfl⟩
    | pending => exact absurd rfl hpending
    | panic => exact absurd rfl hpanic

/-- **Forwarding puts back what it got**, and leaves the selector alone. -/
theorem Forwarded.settled (h : Forwarded kind t req fx x) (hpending : x ≠ .error .pending) (hpanic : x ≠ .error .panic)
    (tok : ℤ) (bytes : List UInt8) : Settled (.next tok :: (fx ++ [.release tok, .reply bytes])) := by
  cases h with
  | dialed hkind hpeer => constructor <;> simp [List.count_cons]
  | pooled hkind haddr hpeer =>
    obtain ⟨healthy, hput⟩ := putAfter_eq hpending hpanic _
    rw [hput]
    constructor
    · simp [List.count_cons]
    · intro c
      cases healthy <;> simp [List.count_cons]
  | failed e hnone => constructor <;> simp [List.count_cons]
  | waits hpeer hkind => exact absurd rfl hpending

/-- **What a call can do.** -/
inductive Handled (httparse : List UInt8 → Parsed) (kind : ForwarderKind) (t : Talk) : Outcome → List Effect → Prop
  | refused {a : StdError} : readHttp11Request httparse t.client.1 = .error (.err a) → Handled httparse kind t .returned []
  | unread : readHttp11Request httparse t.client.1 = .error .pending → Handled httparse kind t .waiting []
  | excessive : readHttp11Request httparse t.client.1 = .error .panic → Handled httparse kind t .panicked []
  | forwarded {p : Request × Stream UInt8} {fx : List Effect} {x : Except (Halt UpstreamError) Response}
      (bytes : List UInt8) : readHttp11Request httparse t.client.1 = .ok p → Forwarded kind t p.1 fx x →
      x ≠ .error .pending → x ≠ .error .panic →
      Handled httparse kind t t.reply.outcome (.next t.tok :: (fx ++ [.release t.tok, .reply bytes]))
  | unanswered {p : Request × Stream UInt8} {fx : List Effect} : readHttp11Request httparse t.client.1 = .ok p →
      Forwarded kind t p.1 fx (.error .pending) → Handled httparse kind t .waiting (.next t.tok :: fx)
  | overlong {p : Request × Stream UInt8} {fx : List Effect} : readHttp11Request httparse t.client.1 = .ok p →
      Forwarded kind t p.1 fx (.error .panic) → Handled httparse kind t .panicked (.next t.tok :: fx)

/-- **Inversion of `handle_conn`.** -/
theorem handled (httparse : List UInt8 → Parsed) (kind : ForwarderKind) (t : Talk) :
    Handled httparse kind t (handleConn httparse kind t).1 (handleConn httparse kind t).2 := by
  unfold handleConn
  cases hread : readHttp11Request httparse t.client.1 with
  | error a =>
    cases a with
    | err a => exact .refused hread
    | pending => exact .unread hread
    | panic => exact .excessive hread
  | ok p =>
    have hforwarded := forwarded kind t p.1
    simp only
    generalize kind.forward t.addr p.1 t.peer = y at hforwarded ⊢
    obtain ⟨fx, x⟩ := y
    cases x with
    | ok resp => exact .forwarded _ hread hforwarded nofun nofun
    | error a =>
      cases a with
      | err e => exact .forwarded _ hread hforwarded nofun nofun
      | pending => exact .unanswered hread hforwarded
      | panic => exact .overlong hread hforwarded

variable {o : Outcome}

theorem not_excessive_of_ne_panic (hread : readHttp11Request httparse t.client.1 ≠ .error .panic) :
    ¬ Excessive httparse t.client.1 := fun h => hread (readHttp11Request_excessive t.client.2 h)

/-- A request that is refused does no harm. -/
theorem harmless_of_error {a : Halt StdError} (hread : readHttp11Request httparse t.client.1 = .error a)
    (ha : a ≠ .panic) : Harmless httparse kind t := by
  have hclient : ¬ Excessive httparse t.client.1 :=
    not_excessive_of_ne_panic fun hpanic => ha (Except.error.inj (hread.symm.trans hpanic))
  refine ⟨hclient, ?_⟩
  rintro ⟨k, headers, hblock, henough⟩
  -- it would have been read
  have hsmall : (collect headers).contentLength - excess t.client.1 k < 2 ^ 63 := by
    by_contra hlarge
    exact hclient ⟨k, headers, hblock, Nat.not_lt.1 hlarge⟩
  obtain ⟨req, conn', hok, -⟩ := readHttp11Request_block t.client.2 hblock henough hsmall
  rw [hread] at hok
  cases hok

/-- A request that is read does harm only through its answer. -/
theorem harmless_iff_of_ok {p : Request × Stream UInt8} (hread : readHttp11Request httparse t.client.1 = .ok p)
    (hforwarded : Forwarded kind t p.1 fx x) : Harmless httparse kind t ↔ x ≠ .error .panic := by
  rw [ne_eq, hforwarded.panic_iff]
  constructor
  · rintro h ⟨answer, hanswer, hlong⟩
    exact h.upstream (received_of_ok t.client.2 hread) answer hanswer hlong
  · intro h
    refine ⟨not_excessive_of_ne_panic fun hpanic => ?_, fun _ answer hanswer hlong => h ⟨answer, hanswer, hlong⟩⟩
    rw [hread] at hpanic
    cases hpanic

theorem Sent.outcome_ne_panicked (sent : Sent) : sent.outcome ≠ .panicked := by cases sent <;> nofun

/-- **When a call panics**: if and only if somebody announces more than can be allocated. -/
theorem Handled.panicked_iff (h : Handled httparse kind t o fx) : o = .panicked ↔ ¬ Harmless httparse kind t := by
  cases h with
  | refused hread => exact ⟨nofun, fun h => absurd (harmless_of_error hread nofun) h⟩
  | unread hread => exact ⟨nofun, fun h => absurd (harmless_of_error hread nofun) h⟩
  | excessive hread =>
    refine ⟨fun _ h => ?_, fun _ => rfl⟩
    obtain ⟨hexcessive, -⟩ | hregular := readHttp11Request_error t.client.2 hread
    · exact h.client hexcessive
    · exact hregular
  | forwarded bytes hread hforwarded hpending hpanic =>
    exact ⟨fun ho => absurd ho t.reply.outcome_ne_panicked,
      fun h => absurd ((harmless_iff_of_ok hread hforwarded).2 hpanic) h⟩
  | unanswered hread hforwarded => exact ⟨nofun, fun h => absurd ((harmless_iff_of_ok hread hforwarded).2 nofun) h⟩
  | overlong hread hforwarded =>
    exact ⟨fun _ h => (harmless_iff_of_ok hread hforwarded).1 h rfl, fun _ => rfl⟩

/-- **What a call took it has given back** when it returns. -/
theorem Handled.settled (h : Handled httparse kind t o fx) (ho : o = .returned) : Settled fx := by
  cases h with
  | refused hread => exact ⟨fun _ => rfl, fun _ => rfl⟩
  | unread hread => cases ho
  | excessive hread => cases ho
  | forwarded bytes hread hforwarded hpending hpanic => exact hforwarded.settled hpending hpanic t.tok bytes
  | unanswered hread hforwarded => cases ho
  | overlong hread hforwarded => cases ho

theorem Handled.ne_waiting (h : Handled httparse kind t o fx) (hends : Ends kind t) : o ≠ .waiting := by
  cases h with
  | refused hread => nofun
  | unread hread =>
    obtain ⟨-, hpanic⟩ | hregular := readHttp11Request_error t.client.2 hread
    · cases hpanic
    · exact absurd hregular hends.client
  | excessive hread => nofun
  | forwarded bytes hread hforwarded hpending hpanic =>
    cases hreply : t.reply with
    | done => nofun
    | failed e => nofun
    | stuck => exact absurd hreply hends.reply
  | unanswered hread hforwarded => exact absurd rfl (hforwarded.ne_pending hends)
  | overlong hread hforwarded => nofun

end Call

end ServiceProxy.ProxyHttp
