import ServiceProxy.Lib.Transition
import ServiceProxy.Lib.ByteStream

/-!
# Requests and answers over pooled connections

Calls take connections from a pool.  A call writes a request, reads an answer and puts the connection back, as healthy if
it got a response and as broken if it failed.  The server at the other end of a connection takes the bytes it receives
apart into requests, and answers one after the other.

* `Link` — a connection, with the server's log of what it answered;
* `Protocol` — how requests are written and delimited, and how answers are sent and read;
* `Pooling`, `Discipline` — a pool, and what a pool has to guarantee: a connection is lent to one call at a time, and only a
  call that puts it back as healthy makes it free again;
* `Net` — the pool, its connections and the calls;
* `Correct` — every response belongs to the request of the call it is returned to, and on an idle connection everything is
  answered and read.
-/

namespace ServiceProxy.Lib.Exchange

variable {α κ Q A R E σ ε : Type}

/-! ## Connections -/

/-- A request the server has answered. -/
structure Entry (α A : Type) where
  request : List α
  answer : A
  deriving DecidableEq

/-- A connection: everything that was sent to the server, what it answered, the bytes of answers that are not read yet, and
whether the server has closed its side. -/
structure Link (α A : Type) where
  input : List α
  log : List (Entry α A)
  flight : List α
  closed : Bool
  deriving DecidableEq

def Link.new : Link α A := ⟨[], [], [], false⟩

def consumed (log : List (Entry α A)) : ℕ := (log.map fun e => e.request.length).sum

@[simp] theorem consumed_append (log log' : List (Entry α A)) :
    consumed (log ++ log') = consumed log + consumed log' := by
  simp [consumed]

@[simp] theorem consumed_one (e : Entry α A) : consumed [e] = e.request.length := by simp [consumed]

def Link.unanswered (l : Link α A) : List α := l.input.drop (consumed l.log)

/-- No byte of an answer is unread, and no byte of a request is unanswered. -/
def Link.Settled (l : Link α A) : Prop := l.flight = [] ∧ consumed l.log = l.input.length

theorem Link.settled_new : (Link.new : Link α A).Settled := ⟨rfl, rfl⟩

theorem Link.unanswered_eq_nil {l : Link α A} (h : consumed l.log = l.input.length) : l.unanswered = [] := by
  unfold Link.unanswered
  rw [h, List.drop_length]

/-! ## Calls -/

/-- `encode` writes a request and `delimit` finds the length of the first complete one; `bytes` is how an answer is sent,
and `read` reads a response from the segments that arrived and says what it leaves on the connection. -/
structure Protocol (α Q A R E : Type) where
  encode : Q → List α
  delimit : List α → Option ℕ
  bytes : A → List α
  read : Stream α → Except (Halt E) (R × List α)

inductive Phase (α R : Type)
  /-- so many bytes of the request are sent -/
  | writing (sent : ℕ)
  /-- these segments have arrived -/
  | reading (segs : List (List α))
  | returned (r : R)
  | failed
  | panicked
  deriving DecidableEq

/-- A call that has a connection, and how many bytes the server had been sent there before. -/
structure Call (κ α R : Type) where
  conn : κ
  start : ℕ
  phase : Phase α R
  deriving DecidableEq

/-- What a call does, with the outcome the environment chooses. -/
inductive Act
  | write (n : ℕ)
  | writeErr
  | flush
  | recv (n : ℕ)
  | recvEof
  | recvErr
  deriving DecidableEq

/-- What a call makes of the outcome of the reader on the segments `segs`, when `rest` has not arrived yet. -/
def outcome (segs : List (List α)) (rest : List α) : Except (Halt E) (R × List α) → List α × Phase α R
  | .ok (r, left) => (left ++ rest, .returned r)
  | .error (.err _) => (rest, .failed)
  | .error .pending => (rest, .reading segs)
  | .error .panic => (rest, .panicked)

/-- One operation of a call with the request `msg`.  A write may be short; a read gets some of the bytes in flight, or the
end of a connection the server has closed.  A write or a read that fails ends the call. -/
def conduct (p : Protocol α Q A R E) (msg : List α) (l : Link α A) : Phase α R → Act → Option (Link α A × Phase α R)
  | .writing sent, .write n =>
    if sent + n ≤ msg.length then
      some ({ l with input := l.input ++ (msg.drop sent).take n }, .writing (sent + n))
    else none
  | .writing _, .writeErr => some (l, .failed)
  | .writing sent, .flush => if sent = msg.length then some (l, .reading []) else none
  | .reading segs, .recv n =>
    if 0 < n ∧ n ≤ l.flight.length then
      let segs := segs ++ [l.flight.take n]
      let (flight, phase) := outcome segs (l.flight.drop n) (p.read ⟨segs, .open⟩)
      some ({ l with flight }, phase)
    else none
  | .reading segs, .recvEof =>
    if l.closed ∧ l.flight = [] then
      let (flight, phase) := outcome segs l.flight (p.read ⟨segs, .eof⟩)
      some ({ l with flight }, phase)
    else none
  | .reading _, .recvErr => some (l, .failed)
  | _, _ => none

/-- The server answers the first request it has not answered. -/
def Link.serve (p : Protocol α Q A R E) (l : Link α A) (a : A) : Option (Link α A) :=
  if l.closed then none
  else (p.delimit l.unanswered).map fun n =>
    { l with log := l.log ++ [⟨l.unanswered.take n, a⟩], flight := l.flight ++ p.bytes a }

/-! ## The pool -/

/-- A pool: its steps, the connection that is lent to a call, the idle connections, and the events that belong to the
calls, `put i healthy` among them. -/
structure Pooling (σ ε κ : Type) where
  step : σ → ε → Option σ
  user : σ → ℕ → Option κ
  idle : σ → List κ
  put : ℕ → Bool → ε
  isPut : ε → Bool

/-- **The discipline of a pool.**  `getting s i` says that the call `i` has not had a connection yet, and `Free s c` that
`c` may be lent: it is idle, or being put back as healthy, or not dialed yet. -/
structure Discipline (P : Pooling σ ε κ) where
  Inv : σ → Prop
  getting : σ → ℕ → Prop
  Free : σ → κ → Prop
  inv_step : ∀ {s e t}, Inv s → P.step s e = some t → Inv t
  free_of_idle : ∀ {s c}, c ∈ P.idle s → Free s c
  exclusive : ∀ {s i j c}, Inv s → P.user s i = some c → P.user s j = some c → i = j
  not_free : ∀ {s i c}, Inv s → P.user s i = some c → ¬ Free s c
  not_getting : ∀ {s i c}, P.user s i = some c → ¬ getting s i
  free_step : ∀ {s e t c}, Inv s → P.step s e = some t → Free t c →
    Free s c ∨ ∃ i, P.user s i = some c ∧ e = P.put i true
  user_step : ∀ {s e t i c}, Inv s → P.step s e = some t → P.user t i = some c →
    P.user s i = some c ∨ getting s i ∧ Free s c
  getting_step : ∀ {s e t i}, P.step s e = some t → getting t i → getting s i
  isPut_put : ∀ i healthy, P.isPut (P.put i healthy) = true
  put_inj : ∀ {i j healthy healthy'}, P.put i healthy = P.put j healthy' → i = j ∧ healthy = healthy'

/-! ## The system -/

/-- The pool, its connections, and the calls that have got one. -/
structure Net (σ κ α A R : Type) where
  pool : σ
  links : κ → Link α A
  calls : ℕ → Option (Call κ α R)

def Net.new (pool : σ) : Net σ κ α A R := ⟨pool, fun _ => .new, fun _ => none⟩

/-- The events: of the pool; a call begins with its connection, does something, or puts the connection back; the server
answers or closes a connection. -/
inductive Ev (ε κ A : Type)
  | pool (e : ε)
  | start (i : ℕ)
  | call (i : ℕ) (a : Act)
  | done (i : ℕ)
  | serve (c : κ) (a : A)
  | close (c : κ)

section Step

variable [DecidableEq κ]

/-- One step, where the request of the call `i` is `reqs i`. -/
def step (P : Pooling σ ε κ) (p : Protocol α Q A R E) (reqs : ℕ → Q) (s : Net σ κ α A R) :
    Ev ε κ A → Option (Net σ κ α A R)
  | .pool e => if P.isPut e then none else (P.step s.pool e).map fun pool => { s with pool }
  | .start i =>
    match P.user s.pool i, s.calls i with
    | some c, none =>
      some { s with calls := Function.update s.calls i (some ⟨c, (s.links c).input.length, .writing 0⟩) }
    | _, _ => none
  | .call i a =>
    match P.user s.pool i, s.calls i with
    | some c, some call =>
      (conduct p (p.encode (reqs i)) (s.links c) call.phase a).map fun (l, phase) =>
        { s with
          links := Function.update s.links c l
          calls := Function.update s.calls i (some { call with phase }) }
    | _, _ => none
  | .done i =>
    match s.calls i with
    | some ⟨_, _, .returned _⟩ => (P.step s.pool (P.put i true)).map fun pool => { s with pool }
    | some ⟨_, _, .failed⟩ => (P.step s.pool (P.put i false)).map fun pool => { s with pool }
    | _ => none
  | .serve c a => ((s.links c).serve p a).map fun l => { s with links := Function.update s.links c l }
  | .close c => some { s with links := Function.update s.links c { s.links c with closed := true } }

end Step

/-! ## What a step can do -/

inductive Stepped [DecidableEq κ] (P : Pooling σ ε κ) (p : Protocol α Q A R E) (reqs : ℕ → Q) (s : Net σ κ α A R) :
    Ev ε κ A → Net σ κ α A R → Prop
  | pool {e : ε} {pool : σ} : P.isPut e = false → P.step s.pool e = some pool →
      Stepped P p reqs s (.pool e) { s with pool }
  | start {i : ℕ} {c : κ} : P.user s.pool i = some c → s.calls i = none →
      Stepped P p reqs s (.start i)
        { s with calls := Function.update s.calls i (some ⟨c, (s.links c).input.length, .writing 0⟩) }
  | call {i : ℕ} {a : Act} {c : κ} {call : Call κ α R} {l : Link α A} {phase : Phase α R} :
      P.user s.pool i = some c → s.calls i = some call →
      conduct p (p.encode (reqs i)) (s.links c) call.phase a = some (l, phase) →
      Stepped P p reqs s (.call i a)
        { s with
          links := Function.update s.links c l
          calls := Function.update s.calls i (some { call with phase }) }
  | putHealthy {i : ℕ} {c : κ} {start : ℕ} {r : R} {pool : σ} : s.calls i = some ⟨c, start, .returned r⟩ →
      P.step s.pool (P.put i true) = some pool → Stepped P p reqs s (.done i) { s with pool }
  | putBroken {i : ℕ} {c : κ} {start : ℕ} {pool : σ} : s.calls i = some ⟨c, start, .failed⟩ →
      P.step s.pool (P.put i false) = some pool → Stepped P p reqs s (.done i) { s with pool }
  | serve {c : κ} {a : A} {l : Link α A} : (s.links c).serve p a = some l →
      Stepped P p reqs s (.serve c a) { s with links := Function.update s.links c l }
  | close {c : κ} : Stepped P p reqs s (.close c)
      { s with links := Function.update s.links c { s.links c with closed := true } }

/-- **Inversion of `step`.** -/
theorem stepped_of_step [DecidableEq κ] {P : Pooling σ ε κ} {p : Protocol α Q A R E} {reqs : ℕ → Q}
    {s t : Net σ κ α A R} {e : Ev ε κ A} (h : step P p reqs s e = some t) : Stepped P p reqs s e t := by
  cases e with
  | pool e =>
    simp only [step] at h
    split at h
    · cases h
    · rename_i hput
      obtain ⟨pool, hstep, rfl⟩ := Option.map_eq_some_iff.1 h
      exact .pool (by simpa using hput) hstep
  | start i =>
    simp only [step] at h
    split at h
    · obtain rfl := Option.some.inj h
      exact .start ‹_› ‹_›
    · cases h
  | call i a =>
    simp only [step] at h
    split at h
    · obtain ⟨⟨l, phase⟩, hconduct, rfl⟩ := Option.map_eq_some_iff.1 h
      exact .call ‹_› ‹_› hconduct
    · cases h
  | done i =>
    simp only [step] at h
    split at h
    · obtain ⟨pool, hstep, rfl⟩ := Option.map_eq_some_iff.1 h
      exact .putHealthy ‹_› hstep
    · obtain ⟨pool, hstep, rfl⟩ := Option.map_eq_some_iff.1 h
      exact .putBroken ‹_› hstep
    · cases h
  | serve c a =>
    obtain ⟨l, hserve, rfl⟩ := Option.map_eq_some_iff.1 h
    exact .serve hserve
  | close c =>
    obtain rfl : _ = t := by simpa [step] using h
    exact .close

/-! ## What the reader and the requests have to be -/

/-- The server takes nothing but the whole request. -/
def Delimited (p : Protocol α Q A R E) (q : Q) : Prop :=
  ∀ n k, p.delimit ((p.encode q).take n) = some k → (p.encode q).length ≤ n ∧ k = (p.encode q).length

/-- **A sound reader**, for the answers in `Good`: when it returns, it has read an answer to its end, and what it returns
`Matches` the answer. -/
structure Sound (p : Protocol α Q A R E) (Good : A → Prop) (Matches : A → R → Prop) : Prop where
  delimit_nil : p.delimit [] = none
  read_nil : ∀ x, p.read ⟨[], .eof⟩ ≠ .ok x
  read_exact : ∀ {a segs rest e r left}, Good a → (∀ seg ∈ segs, seg ≠ []) → segs.flatten ++ rest = p.bytes a →
    e = .open ∨ e = .eof ∧ rest = [] → p.read ⟨segs, e⟩ = .ok (r, left) → left = [] ∧ rest = [] ∧ Matches a r

/-- The response of a call is the one the server produced for its request: the entry of the log whose request stands where
the call began to write. -/
def Exchanged (Matches : A → R → Prop) (l : Link α A) (start : ℕ) (msg : List α) (r : R) : Prop :=
  ∃ log a later, l.log = log ++ ⟨msg, a⟩ :: later ∧ consumed log = start ∧ Matches a r

/-- **What is to be shown of a state**: every response belongs to the request of its call, a call that got its response has
left its connection settled, and every idle connection is settled. -/
structure Correct (P : Pooling σ ε κ) (p : Protocol α Q A R E) (reqs : ℕ → Q) (Matches : A → R → Prop)
    (s : Net σ κ α A R) : Prop where
  exchanged : ∀ i call r, s.calls i = some call → call.phase = .returned r →
    Exchanged Matches (s.links call.conn) call.start (p.encode (reqs i)) r
  handed : ∀ i c call r, P.user s.pool i = some c → s.calls i = some call → call.phase = .returned r →
    (s.links c).Settled
  settled : ∀ c ∈ P.idle s.pool, (s.links c).Settled

end ServiceProxy.Lib.Exchange
