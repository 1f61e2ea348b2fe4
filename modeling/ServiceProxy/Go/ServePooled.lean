import ServiceProxy.Lib.GoChannel
import ServiceProxy.Lib.HandOver
import ServiceProxy.Lib.Transition

/-!
# The accept loop and the workers of `servePooled` in Go (`go/cmd/proxy/main.go`)

One accept loop that sends every connection into the channel `jobs`, and workers that range over it.  Connections are numbered
in the order in which they are accepted.

A send gives its value to a receiver that waits, else to the buffer, else it waits itself; a receive takes the head of the
buffer, and then the value of a sender that waits moves up, or without a buffer it takes the value of the sender.  An error of
`Accept` is logged.  Nobody closes `jobs`.  A panic in a handler ends the process.

`servePooled_handsOver`: what holds in every run, for every number of workers and every depth of the channel, none included.
-/

namespace ServiceProxy.Go.ServePooled

open ServiceProxy.Lib

/-! ## The code -/

/-- Where the accept loop stands: in `Accept`, before its send, or waiting in it. -/
inductive Acceptor
  | accepting | sending (conn : ℕ) | blocked (conn : ℕ)
  deriving DecidableEq, Repr

/-- Where a worker stands: before its receive, waiting in it, or in `HandleConn`. -/
inductive Worker
  | recv | blocked | handling (conn : ℕ)
  deriving DecidableEq, Repr

/-- The accept loop, the channel, who has received and who has finished which connection, and whether the process lives. -/
structure Hub where
  acceptor : Acceptor
  jobs : Chan ℕ
  accepted : ℕ
  received : List (ℕ × ℕ)
  finished : List (ℕ × ℕ)
  alive : Bool
  deriving DecidableEq

abbrev Pooled := Threads Hub Worker

/-- `servePooled` up to its accept loop, where a channel holds no more than `limit` elements. -/
def start (limit : ℕ) (workerPoolSize workerQueueDepth : ℤ) : Except GoPanic Pooled := do
  let jobs ← Chan.make limit workerQueueDepth
  .ok ⟨{ acceptor := .accepting, jobs, accepted := 0, received := [], finished := [], alive := true },
    List.replicate workerPoolSize.toNat .recv⟩

/-- `send (some k)` gives the connection to the worker `k`, which waits. -/
inductive Ev
  | accept | acceptErr | send (waiter : Option ℕ) | recv (k : ℕ) | finish (k : ℕ) | panic (k : ℕ)
  deriving DecidableEq, Repr

/-- The worker `k` has received the connection `c`. -/
def Hub.receive (h : Hub) (k c : ℕ) (acceptor : Acceptor) (jobs : Chan ℕ) : Hub :=
  { h with acceptor, jobs, received := h.received ++ [(k, c)] }

/-- `jobs <- conn`. -/
def send (s : Pooled) (c : ℕ) : Option ℕ → Option Pooled
  | some k =>
    if s.tasks[k]? = some .blocked then
      some ⟨s.shared.receive k c .accepting s.shared.jobs, s.tasks.set k (.handling c)⟩
    else none
  | none =>
    if .blocked ∈ s.tasks then none
    else
      match s.shared.jobs.send c with
      | some (.ok jobs) => some ⟨{ s.shared with acceptor := .accepting, jobs }, s.tasks⟩
      | some (.error _) => none
      | none => some ⟨{ s.shared with acceptor := .blocked c }, s.tasks⟩

/-- `<-jobs` by the worker `k`. -/
def recv (s : Pooled) (k : ℕ) : Option Pooled :=
  match s.shared.jobs.recv with
  | some (some c, jobs) =>
    match s.shared.acceptor with
    | .blocked c' =>
      match jobs.send c' with
      | some (.ok jobs) => some ⟨s.shared.receive k c .accepting jobs, s.tasks.set k (.handling c)⟩
      | _ => none
    | acceptor => some ⟨s.shared.receive k c acceptor jobs, s.tasks.set k (.handling c)⟩
  | some (none, _) => none
  | none =>
    match s.shared.acceptor with
    | .blocked c => some ⟨s.shared.receive k c .accepting s.shared.jobs, s.tasks.set k (.handling c)⟩
    | _ => some ⟨s.shared, s.tasks.set k .blocked⟩

/-- One step of the accept loop or of a worker. -/
def step (s : Pooled) (e : Ev) : Option Pooled :=
  if s.shared.alive then
    match e with
    | .accept =>
      if s.shared.acceptor = .accepting then
        some ⟨{ s.shared with acceptor := .sending s.shared.accepted, accepted := s.shared.accepted + 1 }, s.tasks⟩
      else none
    | .acceptErr => if s.shared.acceptor = .accepting then some s else none
    | .send waiter =>
      match s.shared.acceptor with
      | .sending c => send s c waiter
      | _ => none
    | .recv k => if s.tasks[k]? = some .recv then recv s k else none
    | .finish k =>
      match s.tasks[k]? with
      | some (.handling c) => some ⟨{ s.shared with finished := s.shared.finished ++ [(k, c)] }, s.tasks.set k .recv⟩
      | _ => none
    | .panic k =>
      match s.tasks[k]? with
      | some (.handling _) => some ⟨{ s.shared with alive := false }, s.tasks⟩
      | _ => none
  else none

/-! ## What a step can do -/

inductive Stepped (s : Pooled) : Ev → Pooled → Prop
  | accept : s.shared.acceptor = .accepting → Stepped s .accept
      ⟨{ s.shared with acceptor := .sending s.shared.accepted, accepted := s.shared.accepted + 1 }, s.tasks⟩
  | acceptErr : s.shared.acceptor = .accepting → Stepped s .acceptErr s
  | handOff {k c : ℕ} : s.shared.acceptor = .sending c → s.tasks[k]? = some .blocked → Stepped s (.send (some k))
      ⟨s.shared.receive k c .accepting s.shared.jobs, s.tasks.set k (.handling c)⟩
  | enqueue {c : ℕ} {jobs : Chan ℕ} : s.shared.acceptor = .sending c → .blocked ∉ s.tasks →
      s.shared.jobs.send c = some (.ok jobs) →
      Stepped s (.send none) ⟨{ s.shared with acceptor := .accepting, jobs }, s.tasks⟩
  | block {c : ℕ} : s.shared.acceptor = .sending c → .blocked ∉ s.tasks → s.shared.jobs.send c = none →
      Stepped s (.send none) ⟨{ s.shared with acceptor := .blocked c }, s.tasks⟩
  | recv {k c : ℕ} {jobs : Chan ℕ} : s.tasks[k]? = some .recv → s.shared.jobs.recv = some (some c, jobs) →
      (∀ c', s.shared.acceptor ≠ .blocked c') →
      Stepped s (.recv k) ⟨s.shared.receive k c s.shared.acceptor jobs, s.tasks.set k (.handling c)⟩
  | moveUp {k c c' : ℕ} {jobs jobs' : Chan ℕ} : s.tasks[k]? = some .recv → s.shared.jobs.recv = some (some c, jobs) →
      s.shared.acceptor = .blocked c' → jobs.send c' = some (.ok jobs') →
      Stepped s (.recv k) ⟨s.shared.receive k c .accepting jobs', s.tasks.set k (.handling c)⟩
  | takeOver {k c : ℕ} : s.tasks[k]? = some .recv → s.shared.jobs.recv = none → s.shared.acceptor = .blocked c →
      Stepped s (.recv k) ⟨s.shared.receive k c .accepting s.shared.jobs, s.tasks.set k (.handling c)⟩
  | wait {k : ℕ} : s.tasks[k]? = some .recv → s.shared.jobs.recv = none → (∀ c, s.shared.acceptor ≠ .blocked c) →
      Stepped s (.recv k) ⟨s.shared, s.tasks.set k .blocked⟩
  | finish {k c : ℕ} : s.tasks[k]? = some (.handling c) → Stepped s (.finish k)
      ⟨{ s.shared with finished := s.shared.finished ++ [(k, c)] }, s.tasks.set k .recv⟩
  | panic {k c : ℕ} : s.tasks[k]? = some (.handling c) → Stepped s (.panic k) ⟨{ s.shared with alive := false }, s.tasks⟩

variable {w d k c : ℕ} {s t : Pooled} {e : Ev} {u u' : Worker}

theorem stepped_of_send {waiter : Option ℕ} (haccept : s.shared.acceptor = .sending c) (hs : send s c waiter = some t) :
    Stepped s (.send waiter) t := by
  cases waiter with
  | some k =>
    obtain ⟨hk, hs⟩ := Option.ite_none_right_eq_some.1 hs
    obtain rfl := Option.some.inj hs
    exact .handOff haccept hk
  | none =>
    simp only [send] at hs
    split at hs
    · cases hs
    · rename_i hnone
      split at hs
      · obtain rfl := Option.some.inj hs
        exact .enqueue haccept hnone ‹_›
      · cases hs
      · obtain rfl := Option.some.inj hs
        exact .block haccept hnone ‹_›

theorem stepped_of_recv (hk : s.tasks[k]? = some .recv) (hs : recv s k = some t) : Stepped s (.recv k) t := by
  unfold recv at hs
  split at hs
  · rename_i c jobs hrecv
    split at hs
    · rename_i c' hblocked
      split at hs
      · obtain rfl := Option.some.inj hs
        exact .moveUp hk hrecv hblocked ‹_›
      · cases hs
    · rename_i hfree
      obtain rfl := Option.some.inj hs
      exact .recv hk hrecv hfree
  · cases hs
  · rename_i hrecv
    split at hs
    · obtain rfl := Option.some.inj hs
      exact .takeOver hk hrecv ‹_›
    · rename_i hfree
      obtain rfl := Option.some.inj hs
      exact .wait hk hrecv hfree

/-- **Inversion of `step`.** -/
theorem stepped_of_step (hs : step s e = some t) : s.shared.alive = true ∧ Stepped s e t := by
  unfold step at hs
  obtain ⟨halive, hs⟩ := Option.ite_none_right_eq_some.1 hs
  refine ⟨halive, ?_⟩
  cases e with
  | accept =>
    obtain ⟨haccept, hs⟩ := Option.ite_none_right_eq_some.1 hs
    obtain rfl := Option.some.inj hs
    exact .accept haccept
  | acceptErr =>
    obtain ⟨haccept, hs⟩ := Option.ite_none_right_eq_some.1 hs
    obtain rfl := Option.some.inj hs
    exact .acceptErr haccept
  | send waiter =>
    simp only at hs
    split at hs
    · exact stepped_of_send ‹_› hs
    · cases hs
  | recv k =>
    obtain ⟨hk, hs⟩ := Option.ite_none_right_eq_some.1 hs
    exact stepped_of_recv hk hs
  | finish k =>
    simp only at hs
    split at hs
    · obtain rfl := Option.some.inj hs
      exact .finish ‹_›
    · cases hs
  | panic k =>
    simp only at hs
    split at hs
    · obtain rfl := Option.some.inj hs
      exact .panic ‹_›
    · cases hs

/-! ## The invariant -/

def Acceptor.hand : Acceptor → List ℕ
  | .accepting => []
  | .sending c | .blocked c => [c]

def Worker.conn : Worker → List ℕ
  | .handling c => [c]
  | _ => []

def Worker.handles (u : Worker) : ℕ := u.conn.length

/-- The connections that nobody has received: those in the buffer, and the one that the accept loop has in hand. -/
def Hub.line (h : Hub) : List ℕ := h.jobs.buf ++ h.acceptor.hand

/-- **The invariant of the worker pool.** -/
structure Inv (w d : ℕ) (s : Pooled) : Prop where
  book : Book Worker.conn s.shared.accepted s.shared.line s.shared.received s.shared.finished s.tasks
  workers : s.tasks.length = w
  cap : s.shared.jobs.cap = d
  opened : s.shared.jobs.closed = false
  full : ∀ c, s.shared.acceptor = .blocked c → s.shared.jobs.buf.length = d ∧ .blocked ∉ s.tasks
  empty : .blocked ∈ s.tasks → s.shared.jobs.buf = []
  served : ∀ p ∈ s.shared.received, p.1 < w

theorem inv_start {limit : ℕ} {workerPoolSize workerQueueDepth : ℤ} (h : start limit workerPoolSize workerQueueDepth = .ok s) :
    Inv workerPoolSize.toNat workerQueueDepth.toNat s ∧ s.shared.accepted = 0 ∧ s.shared.acceptor = .accepting ∧
      s.tasks = List.replicate workerPoolSize.toNat .recv ∧ s.shared.jobs.buf = [] := by
  unfold start at h
  cases hmake : Chan.make limit workerQueueDepth with
  | error p =>
    rw [hmake] at h
    cases h
  | ok jobs =>
    rw [hmake] at h
    obtain rfl := Except.ok.inj h
    obtain ⟨-, -, rfl⟩ := make_eq_ok.1 hmake
    have hrecv : ∀ u ∈ List.replicate workerPoolSize.toNat Worker.recv, u = .recv := fun u => List.eq_of_mem_replicate
    have hbook : Book Worker.conn 0 [] [] [] (List.replicate workerPoolSize.toNat .recv) :=
      book_new fun u hu => by rw [hrecv u hu]; rfl
    exact ⟨⟨hbook, List.length_replicate, rfl, rfl, nofun, fun _ => rfl, nofun⟩, rfl, rfl, rfl, rfl⟩

theorem mem_set_of_ne (u' : Worker) (hu : u' ≠ .blocked) (h : .blocked ∈ s.tasks.set k u') : .blocked ∈ s.tasks := by
  rcases List.mem_or_eq_of_mem_set h with hmem | heq
  · exact hmem
  · exact absurd heq.symm hu

section Step

variable {a : Acceptor} {jobs : Chan ℕ}

theorem Inv.moveOn {accepted : ℕ} (hinv : Inv w d s)
    (hbook : Book Worker.conn accepted (jobs.buf ++ a.hand) s.shared.received s.shared.finished s.tasks)
    (hcap : jobs.cap = d) (hopened : jobs.closed = false)
    (hfull : ∀ c, a = .blocked c → jobs.buf.length = d ∧ .blocked ∉ s.tasks) (hempty : .blocked ∈ s.tasks → jobs.buf = []) :
    Inv w d ⟨{ s.shared with acceptor := a, jobs, accepted }, s.tasks⟩ :=
  ⟨hbook, hinv.workers, hcap, hopened, hfull, hempty, hinv.served⟩

theorem Inv.receive (hinv : Inv w d s) (hk : s.tasks[k]? = some u) (hu : u.conn = [])
    (hline : s.shared.line = c :: (jobs.buf ++ a.hand)) (hcap : jobs.cap = d) (hopened : jobs.closed = false)
    (hfree : ∀ c', a ≠ .blocked c') (hempty : .blocked ∈ s.tasks → jobs.buf = []) :
    Inv w d ⟨s.shared.receive k c a jobs, s.tasks.set k (.handling c)⟩ := by
  have hbook := hinv.book
  rw [hline] at hbook
  refine ⟨hbook.receive hk hu rfl, ?_, hcap, hopened, fun c' hc' => absurd hc' (hfree c'), fun h => hempty ?_, fun p hp => ?_⟩
  · rw [List.length_set]
    exact hinv.workers
  · exact mem_set_of_ne (.handling c) nofun h
  · rcases List.mem_append.1 hp with hp | hp
    · exact hinv.served p hp
    · obtain rfl := List.mem_singleton.1 hp
      rw [← hinv.workers]
      exact (List.getElem?_eq_some_iff.1 hk).1

theorem Inv.wait (hinv : Inv w d s) (hk : s.tasks[k]? = some .recv) (hrecv : s.shared.jobs.recv = none)
    (hfree : ∀ c, s.shared.acceptor ≠ .blocked c) : Inv w d ⟨s.shared, s.tasks.set k .blocked⟩ := by
  refine ⟨hinv.book.keep hk rfl, ?_, hinv.cap, hinv.opened, fun c' hc' => absurd hc' (hfree c'),
    fun _ => (recv_eq_none.1 hrecv).2, hinv.served⟩
  rw [List.length_set]
  exact hinv.workers

theorem Inv.finish (hinv : Inv w d s) (hk : s.tasks[k]? = some (.handling c)) :
    Inv w d ⟨{ s.shared with finished := s.shared.finished ++ [(k, c)] }, s.tasks.set k .recv⟩ := by
  refine ⟨hinv.book.finish hk rfl rfl, ?_, hinv.cap, hinv.opened, fun c' hc' => ?_,
    fun h => hinv.empty (mem_set_of_ne .recv nofun h), hinv.served⟩
  · rw [List.length_set]
    exact hinv.workers
  · obtain ⟨hlength, hblocked⟩ := hinv.full c' hc'
    exact ⟨hlength, fun h => hblocked (mem_set_of_ne .recv nofun h)⟩

end Step

/-- **Every step keeps the invariant.** -/
theorem inv_step (hinv : Inv w d s) (hs : step s e = some t) : Inv w d t := by
  obtain ⟨-, hstepped⟩ := stepped_of_step hs
  have hbook := hinv.book
  cases hstepped with
  | accept haccept =>
    refine hinv.moveOn ?_ hinv.cap hinv.opened nofun hinv.empty
    rw [Hub.line, haccept, Acceptor.hand, List.append_nil] at hbook
    exact hbook.come
  | acceptErr => exact hinv
  | @handOff k c haccept hk =>
    -- a worker waits, so the buffer is empty
    have hbuf := hinv.empty (List.mem_of_getElem? hk)
    refine hinv.receive hk rfl ?_ hinv.cap hinv.opened nofun hinv.empty
    rw [Hub.line, hbuf, haccept]
    rfl
  | @enqueue c jobs haccept hnone hsend =>
    obtain ⟨-, -, hcap, hbuf, hclosed⟩ := send_eq_ok.1 hsend
    refine hinv.moveOn ?_ (hcap.trans hinv.cap) hclosed nofun fun h => absurd h hnone
    rw [Hub.line, haccept] at hbook
    rw [hbuf, List.append_assoc]
    exact hbook
  | @block c haccept hnone hsend =>
    obtain ⟨-, hfull⟩ := send_eq_none.1 hsend
    refine hinv.moveOn ?_ hinv.cap hinv.opened (fun _ _ => ⟨hfull.trans hinv.cap, hnone⟩) hinv.empty
    rw [Hub.line, haccept] at hbook
    exact hbook
  | @recv k c jobs hk hrecv hfree =>
    obtain ⟨hbuf, hcap, hclosed⟩ := recv_eq_some.1 hrecv
    refine hinv.receive hk rfl ?_ (hcap.trans hinv.cap) (hclosed.trans hinv.opened) hfree fun h => ?_
    · rw [Hub.line, hbuf, List.cons_append]
    · rw [hinv.empty h] at hbuf
      cases hbuf
  | @moveUp k c c' jobs jobs' hk hrecv hblocked hsend =>
    obtain ⟨hbuf, hcap, hclosed⟩ := recv_eq_some.1 hrecv
    obtain ⟨-, -, hcap', hbuf', hclosed'⟩ := send_eq_ok.1 hsend
    refine hinv.receive hk rfl ?_ (hcap'.trans (hcap.trans hinv.cap)) hclosed' nofun fun h => ?_
    · rw [Hub.line, hbuf', hbuf, hblocked]
      simp [Acceptor.hand]
    · exact absurd h (hinv.full _ hblocked).2
  | @takeOver k c hk hrecv hblocked =>
    obtain ⟨-, hbuf⟩ := recv_eq_none.1 hrecv
    refine hinv.receive hk rfl ?_ hinv.cap hinv.opened nofun hinv.empty
    rw [Hub.line, hbuf, hblocked]
    rfl
  | wait hk hrecv hfree => exact hinv.wait hk hrecv hfree
  | finish hk => exact hinv.finish hk
  | panic => exact ⟨hbook, hinv.workers, hinv.cap, hinv.opened, hinv.full, hinv.empty, hinv.served⟩

/-! ## The workers keep going -/

/-- How many steps a worker can take without a new connection. -/
def Worker.cost : Worker → ℕ
  | .recv => 1
  | .blocked => 0
  | .handling _ => 2

def Acceptor.cost : Acceptor → ℕ
  | .accepting => 0
  | .sending _ => 3
  | .blocked _ => 2

/-- The steps that are left before everything accepted is finished and all workers wait. -/
def potential (s : Pooled) : ℕ := tally Worker.cost s.tasks + 2 * s.shared.jobs.buf.length + s.shared.acceptor.cost

def Ev.internal : Ev → Bool
  | .send _ | .recv _ | .finish _ => true
  | .accept | .acceptErr | .panic _ => false

/-- **Every such step is one of the three that a connection needs.** -/
theorem potential_step (hs : step s e = some t) :
    potential t + (if e.internal then 1 else 0) + 3 * s.shared.accepted = potential s + 3 * t.shared.accepted := by
  obtain ⟨-, hstepped⟩ := stepped_of_step hs
  unfold potential
  cases hstepped with
  | accept haccept =>
    simp only [haccept, Acceptor.cost, Ev.internal, Bool.false_eq_true, if_false]
    omega
  | acceptErr | panic => simp only [Ev.internal, Bool.false_eq_true, if_false, Nat.add_zero]
  | @handOff k c haccept hk =>
    have hset := tally_set Worker.cost hk (.handling c)
    simp only [haccept, Acceptor.cost, Worker.cost, Ev.internal, Hub.receive, if_true] at hset ⊢
    omega
  | @enqueue c jobs haccept hnone hsend =>
    obtain ⟨-, -, -, hbuf, -⟩ := send_eq_ok.1 hsend
    simp only [haccept, hbuf, Acceptor.cost, Ev.internal, if_true, List.length_append, List.length_singleton]
    omega
  | block haccept => simp only [haccept, Acceptor.cost, Ev.internal, if_true]
  | @recv k c jobs hk hrecv hfree =>
    have hset := tally_set Worker.cost hk (.handling c)
    obtain ⟨hbuf, -⟩ := recv_eq_some.1 hrecv
    simp only [hbuf, Worker.cost, Ev.internal, Hub.receive, if_true, List.length_cons] at hset ⊢
    omega
  | @moveUp k c c' jobs jobs' hk hrecv hblocked hsend =>
    have hset := tally_set Worker.cost hk (.handling c)
    obtain ⟨hbuf, -⟩ := recv_eq_some.1 hrecv
    obtain ⟨-, -, -, hbuf', -⟩ := send_eq_ok.1 hsend
    simp only [hbuf, hbuf', hblocked, Acceptor.cost, Worker.cost, Ev.internal, Hub.receive, if_true, List.length_cons,
      List.length_append, List.length_nil] at hset ⊢
    omega
  | @takeOver k c hk hrecv hblocked =>
    have hset := tally_set Worker.cost hk (.handling c)
    simp only [hblocked, Acceptor.cost, Worker.cost, Ev.internal, Hub.receive, if_true] at hset ⊢
    omega
  | @wait k hk hrecv hfree =>
    have hset := tally_set Worker.cost hk .blocked
    simp only [Worker.cost, Ev.internal, if_true] at hset ⊢
    omega
  | @finish k c hk =>
    have hset := tally_set Worker.cost hk .recv
    simp only [Worker.cost, Ev.internal, if_true] at hset ⊢
    omega

/-! ## The hand-over -/

/-- **What `servePooled` promises** of the connections, with `w` workers and a channel of depth `d`. -/
def HandedOver (w d : ℕ) (s : Pooled) : Prop :=
  Lib.HandedOver Worker.conn Worker.handles w d s.shared.accepted s.shared.line s.shared.received s.shared.finished s.tasks

/-- The accept loop or a worker can move on, or a worker is handling a connection. -/
inductive Moves (s : Pooled) : Prop
  | step {e : Ev} {t : Pooled} : e.internal = true → step s e = some t → Moves s
  | handling {k c : ℕ} : s.tasks[k]? = some (.handling c) → Moves s

theorem Inv.handedOver (hinv : Inv w d s) : HandedOver w d s := by
  have hone : ∀ u : Worker, u.conn.length ≤ 1 := fun u => by cases u <;> simp [Worker.conn]
  have hfits := s.shared.jobs.fits
  rw [hinv.cap] at hfits
  have hhand : s.shared.acceptor.hand.length ≤ 1 := by cases s.shared.acceptor <;> simp [Acceptor.hand]
  have hline : s.shared.line.length ≤ d + 1 := by
    rw [Hub.line, List.length_append]
    omega
  have hover := hinv.book.handedOver hone hone hline
  rw [hinv.workers] at hover
  exact hover

theorem moves_of_exists (he : e.internal = true) (h : ∃ t, step s e = some t) : Moves s := h.elim fun _ => .step he

theorem moves_of_sending (halive : s.shared.alive = true) (hinv : Inv w d s) (haccept : s.shared.acceptor = .sending c) :
    Moves s := by
  by_cases hblocked : .blocked ∈ s.tasks
  · obtain ⟨k, hk⟩ := List.mem_iff_getElem?.1 hblocked
    refine moves_of_exists (e := .send (some k)) rfl ?_
    simp only [step, halive, if_true, haccept, send, hk]
    exact ⟨_, rfl⟩
  · cases hsend : s.shared.jobs.send c with
    | none =>
      refine moves_of_exists (e := .send none) rfl ?_
      simp only [step, halive, if_true, haccept, send, if_neg hblocked, hsend]
      exact ⟨_, rfl⟩
    | some x =>
      cases x with
      | error p =>
        have hclosed := (send_eq_error.1 hsend).1
        rw [hinv.opened] at hclosed
        cases hclosed
      | ok jobs =>
        refine moves_of_exists (e := .send none) rfl ?_
        simp only [step, halive, if_true, haccept, send, if_neg hblocked, hsend]
        exact ⟨_, rfl⟩

theorem moves_of_recv (halive : s.shared.alive = true) (hinv : Inv w d s) (hk : s.tasks[k]? = some .recv) : Moves s := by
  refine moves_of_exists (e := .recv k) rfl ?_
  simp only [step, halive, if_true, hk, recv]
  cases hrecv : s.shared.jobs.recv with
  | none =>
    cases haccept : s.shared.acceptor <;> exact ⟨_, rfl⟩
  | some x =>
    obtain ⟨y, jobs⟩ := x
    cases y with
    | none =>
      have hclosed := (recv_eq_end.1 hrecv).1
      rw [hinv.opened] at hclosed
      cases hclosed
    | some c =>
      cases haccept : s.shared.acceptor with
      | accepting | sending => exact ⟨_, rfl⟩
      | blocked c' =>
        -- there is room where the head of the buffer was
        obtain ⟨hbuf, hcap, hclosed⟩ := recv_eq_some.1 hrecv
        have hfull := (hinv.full _ haccept).1
        rw [hbuf, List.length_cons] at hfull
        have hroom : jobs.buf.length < jobs.cap := by
          rw [hcap, hinv.cap]
          omega
        cases hsend : jobs.send c' with
        | none =>
          have := (send_eq_none.1 hsend).2
          omega
        | some z =>
          cases z with
          | error p =>
            have hclosed' := (send_eq_error.1 hsend).1
            rw [hclosed, hinv.opened] at hclosed'
            cases hclosed'
          | ok jobs' =>
            simp only [hsend]
            exact ⟨_, rfl⟩

/-- **Nobody waits for ever** while the process lives, if there is a worker and a connection is accepted and not finished. -/
theorem Inv.moves (hinv : Inv w d s) (halive : s.shared.alive = true) (hw : 1 ≤ w)
    (hopen : s.shared.finished.length < s.shared.accepted) : Moves s := by
  obtain ⟨u, hk⟩ : ∃ u, s.tasks[0]? = some u := by
    have hlt : 0 < s.tasks.length := by rw [hinv.workers]; exact hw
    exact ⟨_, List.getElem?_eq_getElem hlt⟩
  cases u with
  | recv => exact moves_of_recv halive hinv hk
  | handling c => exact .handling hk
  | blocked =>
    -- the buffer is empty, and the accept loop does not wait
    have hmem := List.mem_of_getElem? hk
    have hbuf := hinv.empty hmem
    cases haccept : s.shared.acceptor with
    | sending c => exact moves_of_sending halive hinv haccept
    | blocked c => exact absurd hmem (hinv.full _ haccept).2
    | accepting =>
      have hbook := hinv.book
      rw [Hub.line, haccept, hbuf, Acceptor.hand, List.append_nil] at hbook
      obtain ⟨j, v, hj, hv⟩ := hbook.exists_inHand hopen
      cases v with
      | handling c => exact .handling hj
      | recv | blocked => exact absurd rfl hv

section Run

variable {limit : ℕ} {workerPoolSize workerQueueDepth : ℤ} {s₀ : Pooled} {es : List Ev}

theorem inv_run (hstart : start limit workerPoolSize workerQueueDepth = .ok s₀) (hrun : Run step Any s₀ es s) :
    Inv workerPoolSize.toNat workerQueueDepth.toNat s :=
  hrun.invariant (inv_start hstart).1 fun _ _ _ hinv _ hs => inv_step hinv hs

theorem potential_run (hstart : start limit workerPoolSize workerQueueDepth = .ok s₀) (hrun : Run step Any s₀ es s) :
    (es.filter Ev.internal).length + potential s = workerPoolSize.toNat + 3 * s.shared.accepted := by
  obtain ⟨-, haccepted, haccept, htasks, hbuf⟩ := inv_start hstart
  have hcost : tally Worker.cost (List.replicate workerPoolSize.toNat .recv) = workerPoolSize.toNat := by
    simp [tally, Worker.cost]
  have hzero : potential s₀ = workerPoolSize.toNat := by simp [potential, haccept, htasks, hbuf, hcost, Acceptor.cost]
  have hpaid := hrun.paid potential (fun u => 3 * u.shared.accepted) fun _ _ _ _ hs => potential_step hs
  rw [hzero, haccepted, Nat.mul_zero, Nat.add_zero] at hpaid
  rw [← List.countP_eq_length_filter]
  exact hpaid

/-- **Hand-over and backpressure of `servePooled`.**  For every number of workers and every depth of the channel that `make`
accepts, in every interleaving of the accept loop and the workers, whatever connections do and also if one ends the process:
connections are handed over exactly once and in the order in which they were accepted, and the bounds hold; the accept loop
waits only when the buffer is full and no worker waits; without a worker nothing is received.  With a worker, while the process
lives and a connection is not finished, somebody can move on or is handling one; and all steps but accepts are at most three for
each connection and one for each worker, so that each connection is received in the end. -/
theorem servePooled_handsOver (hstart : start limit workerPoolSize workerQueueDepth = .ok s₀) (hrun : Run step Any s₀ es s) :
    HandedOver workerPoolSize.toNat workerQueueDepth.toNat s ∧
      (∀ c, s.shared.acceptor = .blocked c → s.shared.jobs.buf.length = workerQueueDepth.toNat ∧ .blocked ∉ s.tasks) ∧
      (workerPoolSize ≤ 0 → s.shared.received = [] ∧ s.shared.accepted ≤ workerQueueDepth.toNat + 1) ∧
      (1 ≤ workerPoolSize → s.shared.alive = true → s.shared.finished.length < s.shared.accepted → Moves s) ∧
      (es.filter Ev.internal).length ≤ workerPoolSize.toNat + 3 * s.shared.accepted := by
  have hinv := inv_run hstart hrun
  have hover := hinv.handedOver
  refine ⟨hover, hinv.full, fun hnone => ?_, fun hw halive hopen => hinv.moves halive (by omega) hopen, ?_⟩
  · have hzero : workerPoolSize.toNat = 0 := Int.toNat_of_nonpos hnone
    have hnil : s.shared.received = [] := List.eq_nil_iff_forall_not_mem.2 fun p hp => by
      have := hinv.served p hp
      omega
    have hbacklog := hover.backlog
    have hsize := hinv.book.size
    rw [hnil, List.length_nil] at hsize
    exact ⟨hnil, by omega⟩
  · have := potential_run hstart hrun
    omega

end Run

/-- One worker and no buffer: the worker waits for the first connection, and the accept loop waits with the second. -/
def unbuffered : List Ev :=
  [.recv 0, .accept, .send (some 0), .acceptErr, .accept, .send none, .finish 0, .recv 0]

theorem servePooled_handsOver_unbuffered : ∃ s₀ s, start 8 1 0 = .ok s₀ ∧ Run step Any s₀ unbuffered s ∧
    s.shared.received = [(0, 0), (0, 1)] ∧ HandedOver 1 0 s := by
  have hexec : ((start 8 1 0).toOption.bind fun s₀ => exec step Any s₀ unbuffered).map (fun s => s.shared.received) =
      some [(0, 0), (0, 1)] := by
    decide
  obtain ⟨s, hs, hreceived⟩ := Option.map_eq_some_iff.1 hexec
  obtain ⟨s₀, hstart, hrun⟩ := Option.bind_eq_some_iff.1 hs
  have hok : start 8 1 0 = .ok s₀ := by
    cases hx : start 8 1 0 with
    | error p =>
      rw [hx] at hstart
      cases hstart
    | ok s₁ =>
      rw [hx] at hstart
      exact congrArg _ (Option.some.inj hstart)
  exact ⟨s₀, s, hok, Run.of_exec hrun, hreceived, (servePooled_handsOver hok (Run.of_exec hrun)).1⟩

end ServiceProxy.Go.ServePooled
