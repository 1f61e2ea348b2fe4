import ServiceProxy.HandleConn
import ServiceProxy.ServePooled

/-!
# The servers stay alive

`serve_http` (`main.rs`): in the mode `tcp-sync` the accept loop calls `handle_conn` itself, in the mode `tcp-goroutine` it
spawns a task for every connection.  A panic in a task ends that task; a panic in the accept loop ends the process.

* `Call` — a call of `handle_conn` that has come to its end; it returns exactly if it is `Harmless`;
* `alive_run` — no task of `serve_http` dies in a run whose calls return.

`servers_alive`: the same for `serve_http` and for the workers of `serve_pooled`, in terms of what clients and upstreams
send.
-/

namespace ServiceProxy.ServeHttp

open ServiceProxy.Lib ServiceProxy.ProxyHttp

/-! ## The code -/

inductive Mode
  | tcpSync | tcpGoroutine
  deriving DecidableEq, Repr

inductive Loop
  | accepting | handling (conn : ℕ) | stopped | dead
  deriving DecidableEq, Repr

inductive Task
  | handling (conn : ℕ) | done | dead
  deriving DecidableEq, Repr

/-- The accept loop, and how many connections it has accepted. -/
structure Listener where
  loop : Loop
  accepted : ℕ
  deriving DecidableEq, Repr

abbrev Http := Threads Listener Task

def Http.new : Http := ⟨⟨.accepting, 0⟩, []⟩

inductive Ev (ρ : Type*)
  | accept | acceptFails | finish (r : ρ) | run (k : ℕ) (r : ρ)
  deriving DecidableEq, Repr

variable {ρ : Type*}

def act (returns : ρ → Bool) (l : Listener) : Task → ρ → Option (Listener × Task)
  | .handling _, r => some (l, if returns r then .done else .dead)
  | _, _ => none

def step (returns : ρ → Bool) (mode : Mode) (s : Http) : Ev ρ → Option Http
  | .accept =>
    match s.shared.loop, mode with
    | .accepting, .tcpGoroutine =>
      some ⟨⟨.accepting, s.shared.accepted + 1⟩, s.tasks ++ [.handling s.shared.accepted]⟩
    | .accepting, .tcpSync => some ⟨⟨.handling s.shared.accepted, s.shared.accepted + 1⟩, s.tasks⟩
    | _, _ => none
  | .acceptFails => if s.shared.loop = .accepting then some ⟨⟨.stopped, s.shared.accepted⟩, s.tasks⟩ else none
  | .finish r =>
    match s.shared.loop with
    | .handling _ => some ⟨⟨if returns r then .accepting else .dead, s.shared.accepted⟩, s.tasks⟩
    | _ => none
  | .run k r => runLocal (act returns) s k r

/-! ## Runs -/

/-- No call of `handle_conn` panics. -/
def Returns (returns : ρ → Bool) (_ : Http) : Ev ρ → Prop
  | .finish r | .run _ r => returns r = true
  | _ => True

instance {returns : ρ → Bool} (s : Http) (e : Ev ρ) : Decidable (Returns returns s e) := by
  unfold Returns
  split <;> infer_instance

/-- Neither the accept loop nor a task has panicked. -/
def Alive (s : Http) : Prop := s.shared.loop ≠ .dead ∧ ∀ u ∈ s.tasks, u ≠ .dead

section Runs

variable {returns : ρ → Bool} {mode : Mode} {s t : Http} {e : Ev ρ}

theorem alive_step (h : Alive s) (hret : Returns returns s e) (hs : step returns mode s e = some t) : Alive t := by
  cases e with
  | accept =>
    simp only [step] at hs
    split at hs
    · obtain rfl := Option.some.inj hs
      exact ⟨nofun, forall_mem_concat h.2 nofun⟩
    · obtain rfl := Option.some.inj hs
      exact ⟨nofun, h.2⟩
    · cases hs
  | acceptFails =>
    simp only [step] at hs
    split_ifs at hs
    obtain rfl := Option.some.inj hs
    exact ⟨nofun, h.2⟩
  | finish r =>
    simp only [step] at hs
    split at hs
    · obtain rfl := Option.some.inj hs
      have hloop : (if returns r then Loop.accepting else .dead) = .accepting := if_pos hret
      exact ⟨by rw [hloop]; nofun, h.2⟩
    · cases hs
  | run k r =>
    obtain ⟨u, l, u', hk, hact, rfl⟩ := runLocal_eq_some hs
    cases u with
    | handling c =>
      simp only [act, Option.some.injEq, Prod.mk.injEq] at hact
      obtain ⟨rfl, rfl⟩ := hact
      have htask : (if returns r then Task.done else .dead) = .done := if_pos hret
      refine ⟨h.1, forall_mem_set h.2 ?_ k⟩
      rw [htask]
      nofun
    | done => cases hact
    | dead => cases hact

/-- **No call panics, no task dies.** -/
theorem alive_run {es : List (Ev ρ)} (hrun : Run (step returns mode) (Returns returns) Http.new es s) : Alive s :=
  hrun.invariant ⟨nofun, nofun⟩ fun _ _ _ => alive_step

end Runs

/-! ## Calls -/

/-- A call of `handle_conn` that has come to its end. -/
structure Call (httparse : List UInt8 → Parsed) (kind : ForwarderKind) where
  talk : Talk
  ended : (handleConn httparse kind talk).1 ≠ .waiting

section Calls

variable {httparse : List UInt8 → Parsed} {kind : ForwarderKind}

def Call.returns (c : Call httparse kind) : Bool := (handleConn httparse kind c.talk).1 = .returned

/-- **A call returns** exactly if it is harmless. -/
theorem Call.returns_iff (c : Call httparse kind) : c.returns = true ↔ Harmless httparse kind c.talk := by
  have hpanicked := (handled httparse kind c.talk).panicked_iff
  have hended := c.ended
  unfold Call.returns
  rw [decide_eq_true_eq]
  cases ho : (handleConn httparse kind c.talk).1 with
  | returned =>
    rw [ho] at hpanicked
    exact ⟨fun _ => by_contra fun h => absurd (hpanicked.2 h) nofun, fun _ => rfl⟩
  | waiting => exact absurd ho hended
  | panicked =>
    rw [ho] at hpanicked
    exact ⟨nofun, fun h => absurd h (hpanicked.1 rfl)⟩

/-- The calls that end in the run of `serve_http` are harmless. -/
def CallsHarmless (_ : Http) : Ev (Call httparse kind) → Prop
  | .finish c | .run _ c => Harmless httparse kind c.talk
  | _ => True

/-- The calls that end in the run of `serve_pooled` are harmless. -/
def PooledHarmless (_ : ServePooled.Pooled) : ServePooled.Ev (Call httparse kind) → Prop
  | .run _ (.finish c) => Harmless httparse kind c.talk
  | _ => True

theorem CallsHarmless.returns {s : Http} {e : Ev (Call httparse kind)} (h : CallsHarmless s e) :
    Returns Call.returns s e := by
  cases e with
  | finish c => exact c.returns_iff.2 h
  | run k c => exact c.returns_iff.2 h
  | accept | acceptFails => trivial

theorem pooledHarmless_iff {s : ServePooled.Pooled} {e : ServePooled.Ev (Call httparse kind)} :
    PooledHarmless s e ↔ ServePooled.Returns Call.returns s e := by
  cases e with
  | run k a =>
    cases a with
    | finish c => exact c.returns_iff.symm
    | lock | recv | unlock => rfl
  | accept | acceptFails | send => rfl

/-- A call that nobody keeps waiting returns with everything given back, exactly if it is harmless. -/
theorem returned_settled_iff {t : Talk} (hends : Ends kind t) :
    (handleConn httparse kind t).1 = .returned ∧ Settled (handleConn httparse kind t).2 ↔ Harmless httparse kind t := by
  have hhandled := handled httparse kind t
  have hreturns := Call.returns_iff ⟨t, hhandled.ne_waiting hends⟩
  unfold Call.returns at hreturns
  rw [decide_eq_true_eq] at hreturns
  rw [← hreturns]
  exact ⟨fun h => h.1, fun h => ⟨h, hhandled.settled h⟩⟩

/-- **The servers stay alive.**  No slice of `read_http11_request` is out of range.  Whatever a client and an upstream send,
in whatever segments and with whatever ends, a call of `handle_conn` does not panic, and returns with everything given back
if nobody keeps it waiting, exactly if the call is harmless.  So in every run of `serve_http` whose calls are harmless the
accept loop and all tasks are alive, and in every such run of `serve_pooled` all workers are. -/
theorem servers_alive (httparse : List UInt8 → Parsed) :
    (∀ buf k, findHeaderEnd buf = some k → k ≤ buf.length) ∧
    (∀ n (s s' : Stream UInt8) b, s.read n = .ok (b, s') → b.length ≤ n) ∧
    (∀ kind t, ((handleConn httparse kind t).1 ≠ .panicked ↔ Harmless httparse kind t) ∧
      (Ends kind t → ((handleConn httparse kind t).1 = .returned ∧ Settled (handleConn httparse kind t).2 ↔
        Harmless httparse kind t))) ∧
    (∀ mode (es : List (Ev (Call httparse .dial))) s,
      Run (step Call.returns mode) CallsHarmless Http.new es s → Alive s) ∧
    ∀ addrs w d (es : List (ServePooled.Ev (Call httparse (.pool addrs)))) s,
      Run (ServePooled.step Call.returns d) PooledHarmless (ServePooled.Pooled.new w) es s →
        s.tasks.length = w ∧ ∀ u ∈ s.tasks, u ≠ .dead ∧ (u = .stopped → s.shared.acceptor = .stopped) := by
  refine ⟨fun buf k hk => (findHeaderEnd_bounds hk).2, fun n s s' b => Stream.length_read_le,
    fun kind t => ⟨?_, returned_settled_iff⟩, ?_, ?_⟩
  · rw [ne_eq, (handled httparse kind t).panicked_iff, not_not]
  · intro mode es s hrun
    exact alive_run (hrun.mono fun _ _ => CallsHarmless.returns)
  · intro addrs w d es s hrun
    have hinv := ServePooled.inv_run (hrun.mono fun _ _ => pooledHarmless_iff.1)
    refine ⟨hinv.workers, fun u hu => ⟨?_, ?_⟩⟩
    · rintro rfl
      exact hinv.works _ hu
    · rintro rfl
      exact (hinv.works _ hu).1

end Calls

/-! ## Two clients -/

/-- `GET /` and the answer `HTTP/1.1 200 OK` with one byte. -/
def getTalk : Talk where
  client := ⟨⟨[utf8Encode "GET / HTTP/1.1\r\n\r\n".toList], .eof⟩, by decide⟩
  addr := "u:1"
  tok := 0
  peer := .conn ⟨"u:1", 0⟩ .done ⟨⟨[(Rfc9112.okHead Rfc9112.lengthOne).bytes, [104]], .eof⟩, by decide⟩
  reply := .done

theorem ends_getTalk (kind : ForwarderKind) : Ends kind getTalk where
  client := nofun
  pool := nofun
  upstream := by
    rintro c sent answer h
    obtain ⟨-, rfl, rfl⟩ := Peer.conn.inj h
    exact ⟨nofun, nofun⟩
  reply := nofun

def getEvents : List (ServePooled.Ev (Call parseHead (.pool ["u:1"]))) :=
  [.accept, .send, .run 0 .lock, .run 0 .recv, .run 0 .unlock, .run 0 (.finish ⟨getTalk, by decide⟩)]

theorem servers_alive_get :
    Harmless parseHead (.pool ["u:1"]) getTalk ∧ Settled (handleConn parseHead (.pool ["u:1"]) getTalk).2 ∧
    ∃ s, Run (ServePooled.step Call.returns 1) PooledHarmless (ServePooled.Pooled.new 1) getEvents s ∧
      s.shared.finished = [(0, 0)] ∧ ∀ u ∈ s.tasks, u ≠ .dead := by
  have hreturned : (handleConn parseHead (.pool ["u:1"]) getTalk).1 = .returned := by decide
  obtain ⟨-, -, hcalls, -, hpooled⟩ := servers_alive parseHead
  obtain ⟨hpanic, hends⟩ := hcalls (.pool ["u:1"]) getTalk
  have hharmless : Harmless parseHead (.pool ["u:1"]) getTalk := hpanic.1 (by rw [hreturned]; nofun)
  have hrun : Run (ServePooled.step Call.returns 1) (ServePooled.Returns Call.returns) (ServePooled.Pooled.new 1)
      getEvents _ := Run.of_exec_get (by decide)
  have hrun := hrun.mono fun _ _ => pooledHarmless_iff.2
  exact ⟨hharmless, ((hends (ends_getTalk _)).2 hharmless).2, _, hrun, by decide,
    fun u hu => ((hpooled _ _ _ _ _ hrun).2 u hu).1⟩

/-- A header block that announces `2 ^ 63` bytes. -/
def hugePost : List UInt8 := utf8Encode "POST / HTTP/1.1\r\nContent-Length: 9223372036854775808\r\n\r\n".toList

/-- A client that sends nothing else. -/
def hugeTalk : Talk := { getTalk with client := ⟨⟨[hugePost], .eof⟩, by decide⟩ }

theorem excessive_hugePost : Excessive parseHead ⟨[hugePost], .eof⟩ := by
  have hparsed : parseHead (hugePost.take 56) = .complete 56 (some "POST".toList) (some "/".toList)
      [("Content-Length".toList, utf8Encode "9223372036854775808".toList)] := by decide
  exact ⟨56, _, ⟨by decide, by decide, 56, _, _, hparsed⟩, by decide⟩

/-- **The counter-example.**  The client announces `2 ^ 63` bytes, and `handle_conn` panics before it reads one of them. -/
theorem huge_length_panics :
    ¬ ∀ (httparse : List UInt8 → Parsed), HttparseSpec httparse → ∀ (kind : ForwarderKind) (t : Talk), Ends kind t →
      (handleConn httparse kind t).1 = .returned ∧ Settled (handleConn httparse kind t).2 := by
  intro hall
  have hends : Ends .dial hugeTalk := ⟨nofun, (ends_getTalk .dial).pool, (ends_getTalk .dial).upstream, nofun⟩
  have hpanicked : (handleConn parseHead .dial hugeTalk).1 = .panicked :=
    (handled parseHead .dial hugeTalk).panicked_iff.2 fun h => h.client excessive_hugePost
  have hreturned := (hall parseHead parseHead_spec .dial hugeTalk hends).1
  rw [hpanicked] at hreturned
  cases hreturned

end ServiceProxy.ServeHttp
