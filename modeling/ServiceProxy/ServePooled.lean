import ServiceProxy.Lib.Transition
import ServiceProxy.Lib.HandOver

/-!
# The accept loop and the workers of `serve_pooled`

`serve_pooled` (`main.rs`): one accept loop that sends every connection into a bounded channel, and `worker_pool_size`
workers that receive from it, the receiver behind a lock that is held across the receive.  Connections are numbered in the
order in which they are accepted.

The places of a worker are, in the order of its loop: `lock` (before `rx.lock()`), `recv` (it has the lock, before `recv()`),
`received` (`recv()` has returned, the guard is still there), `handling` (in `handle_conn`), `stopped` (after the `break`),
`dead` (`handle_conn` has panicked: nobody starts the worker again).  A call of `handle_conn` is whatever `ρ` says, and
`returns` whether it returns or panics.

The outer `rx` lives as long as the accept loop, so `tx.send` never fails; the accept loop ends only when an accept fails,
which closes the channel: the workers receive what is left in it and stop.
-/

namespace ServiceProxy.ServePooled

open ServiceProxy.Lib

/-! ## The code -/

inductive Acceptor
  | accepting | sending (conn : ℕ) | stopped
  deriving DecidableEq, Repr

inductive Worker
  | lock | recv | received (conn : Option ℕ) | handling (conn : ℕ) | stopped | dead
  deriving DecidableEq, Repr

/-- The accept loop, the channel and the lock, and who has received and who has finished which connection. -/
structure Hub where
  acceptor : Acceptor
  queue : List ℕ
  locked : Bool
  accepted : ℕ
  received : List (ℕ × ℕ)
  finished : List (ℕ × ℕ)
  deriving DecidableEq, Repr

abbrev Pooled := Threads Hub Worker

def Pooled.new (w : ℕ) : Pooled :=
  ⟨{ acceptor := .accepting, queue := [], locked := false, accepted := 0, received := [], finished := [] },
    List.replicate w .lock⟩

inductive Act (ρ : Type*)
  | lock | recv | unlock | finish (r : ρ)
  deriving DecidableEq, Repr

inductive Ev (ρ : Type*)
  | accept | acceptFails | send | run (k : ℕ) (a : Act ρ)
  deriving DecidableEq, Repr

variable {ρ : Type*}

def act (returns : ρ → Bool) (k : ℕ) (h : Hub) : Worker → Act ρ → Option (Hub × Worker)
  | .lock, .lock => if h.locked then none else some ({ h with locked := true }, .recv)
  | .recv, .recv =>
    match h.queue with
    | c :: queue => some ({ h with queue, received := h.received ++ [(k, c)] }, .received (some c))
    | [] => if h.acceptor = .stopped then some (h, .received none) else none
  | .received (some c), .unlock => some ({ h with locked := false }, .handling c)
  | .received none, .unlock => some ({ h with locked := false }, .stopped)
  | .handling c, .finish r =>
    if returns r then some ({ h with finished := h.finished ++ [(k, c)] }, .lock) else some (h, .dead)
  | _, _ => none

/-- One step of the accept loop or of a worker, with the channel of depth `d`. -/
def step (returns : ρ → Bool) (d : ℕ) (s : Pooled) : Ev ρ → Option Pooled
  | .accept =>
    if s.shared.acceptor = .accepting then
      some ⟨{ s.shared with acceptor := .sending s.shared.accepted, accepted := s.shared.accepted + 1 }, s.tasks⟩
    else none
  | .acceptFails =>
    if s.shared.acceptor = .accepting then some ⟨{ s.shared with acceptor := .stopped }, s.tasks⟩ else none
  | .send =>
    match s.shared.acceptor with
    | .sending c =>
      if s.shared.queue.length < d then
        some ⟨{ s.shared with acceptor := .accepting, queue := s.shared.queue ++ [c] }, s.tasks⟩
      else none
    | _ => none
  | .run k a => runLocal (act returns k) s k a

/-! ## What a step can do -/

inductive Acted (returns : ρ → Bool) (k : ℕ) (h : Hub) : Worker → Act ρ → Hub → Worker → Prop
  | lock : h.locked = false → Acted returns k h .lock .lock { h with locked := true } .recv
  | recv {c : ℕ} {queue : List ℕ} : h.queue = c :: queue →
      Acted returns k h .recv .recv { h with queue, received := h.received ++ [(k, c)] } (.received (some c))
  | closed : h.queue = [] → h.acceptor = .stopped → Acted returns k h .recv .recv h (.received none)
  | unlock {c : ℕ} : Acted returns k h (.received (some c)) .unlock { h with locked := false } (.handling c)
  | stop : Acted returns k h (.received none) .unlock { h with locked := false } .stopped
  | finish {c : ℕ} {r : ρ} : returns r = true →
      Acted returns k h (.handling c) (.finish r) { h with finished := h.finished ++ [(k, c)] } .lock
  | panic {c : ℕ} {r : ρ} : returns r = false → Acted returns k h (.handling c) (.finish r) h .dead

inductive Stepped (returns : ρ → Bool) (d : ℕ) (s : Pooled) : Ev ρ → Pooled → Prop
  | accept : s.shared.acceptor = .accepting → Stepped returns d s .accept
      ⟨{ s.shared with acceptor := .sending s.shared.accepted, accepted := s.shared.accepted + 1 }, s.tasks⟩
  | acceptFails : s.shared.acceptor = .accepting →
      Stepped returns d s .acceptFails ⟨{ s.shared with acceptor := .stopped }, s.tasks⟩
  | send {c : ℕ} : s.shared.acceptor = .sending c → s.shared.queue.length < d →
      Stepped returns d s .send ⟨{ s.shared with acceptor := .accepting, queue := s.shared.queue ++ [c] }, s.tasks⟩
  | run {k : ℕ} {a : Act ρ} {w w' : Worker} {h : Hub} : s.tasks[k]? = some w → Acted returns k s.shared w a h w' →
      Stepped returns d s (.run k a) ⟨h, s.tasks.set k w'⟩

variable {returns : ρ → Bool} {w d k : ℕ} {s t : Pooled} {e : Ev ρ} {h h' : Hub} {a : Act ρ} {u u' : Worker}

/-- **Inversion of `act`.** -/
theorem acted_of_act (hact : act returns k h u a = some (h', u')) : Acted returns k h u a h' u' := by
  unfold act at hact
  split at hact
  · split at hact
    · cases hact
    · rename_i hlocked
      obtain ⟨rfl, rfl⟩ := Prod.mk.inj (Option.some.inj hact)
      exact .lock (Bool.eq_false_of_not_eq_true hlocked)
  · split at hact
    · rename_i c queue hqueue
      obtain ⟨rfl, rfl⟩ := Prod.mk.inj (Option.some.inj hact)
      exact .recv hqueue
    · split at hact
      · obtain ⟨rfl, rfl⟩ := Prod.mk.inj (Option.some.inj hact)
        exact .closed ‹_› ‹_›
      · cases hact
  · obtain ⟨rfl, rfl⟩ := Prod.mk.inj (Option.some.inj hact)
    exact .unlock
  · obtain ⟨rfl, rfl⟩ := Prod.mk.inj (Option.some.inj hact)
    exact .stop
  · split at hact
    · obtain ⟨rfl, rfl⟩ := Prod.mk.inj (Option.some.inj hact)
      exact .finish ‹_›
    · rename_i hpanic
      obtain ⟨rfl, rfl⟩ := Prod.mk.inj (Option.some.inj hact)
      exact .panic (Bool.eq_false_of_not_eq_true hpanic)
  · cases hact

/-- **Inversion of `step`.** -/
theorem stepped_of_step (hs : step returns d s e = some t) : Stepped returns d s e t := by
  cases e with
  | accept =>
    simp only [step] at hs
    split at hs
    · obtain rfl := Option.some.inj hs
      exact .accept ‹_›
    · cases hs
  | acceptFails =>
    simp only [step] at hs
    split at hs
    · obtain rfl := Option.some.inj hs
      exact .acceptFails ‹_›
    · cases hs
  | send =>
    simp only [step] at hs
    split at hs
    · split at hs
      · obtain rfl := Option.some.inj hs
        exact .send ‹_› ‹_›
      · cases hs
    · cases hs
  | run k a =>
    obtain ⟨u, h, u', hk, ha, rfl⟩ := runLocal_eq_some hs
    exact .run hk (acted_of_act ha)

/-! ## Exactly once and in order -/

/-- The connection that the accept loop is about to send. -/
def Acceptor.hand : Acceptor → List ℕ
  | .sending c => [c]
  | _ => []

def Worker.conn : Worker → Option ℕ
  | .received conn => conn
  | .handling conn => some conn
  | _ => none

/-- What a worker has in hand. -/
def Worker.hand (u : Worker) : List ℕ := u.conn.toList

/-- The connections that nobody has received: those in the channel, and the one that the accept loop has in hand. -/
def Hub.line (h : Hub) : List ℕ := h.queue ++ h.acceptor.hand

def Worker.handles : Worker → ℕ
  | .handling _ => 1
  | _ => 0

def Worker.guards : Worker → ℕ
  | .recv | .received _ => 1
  | _ => 0

/-- The worker works, or has stopped because the channel is closed and empty. -/
def Worker.Works (h : Hub) : Worker → Prop
  | .received none | .stopped => h.acceptor = .stopped ∧ h.queue = []
  | .dead => False
  | _ => True

/-- **The invariant of the worker pool.** -/
structure Inv (w d : ℕ) (s : Pooled) : Prop where
  book : Book Worker.hand s.shared.accepted s.shared.line s.shared.received s.shared.finished s.tasks
  workers : s.tasks.length = w
  queue : s.shared.queue.length ≤ d
  guard : tally Worker.guards s.tasks = if s.shared.locked then 1 else 0
  works : ∀ u ∈ s.tasks, u.Works s.shared

/-- No call of `handle_conn` panics. -/
def Returns (returns : ρ → Bool) (_ : Pooled) : Ev ρ → Prop
  | .run _ (.finish r) => returns r = true
  | _ => True

instance (s : Pooled) (e : Ev ρ) : Decidable (Returns returns s e) := by
  unfold Returns
  split <;> infer_instance

theorem inv_new (w d : ℕ) : Inv w d (Pooled.new w) := by
  have hlock : ∀ u ∈ List.replicate w Worker.lock, u = .lock := fun u => List.eq_of_mem_replicate
  have hbook : Book Worker.hand 0 [] [] [] (List.replicate w .lock) := book_new fun u hu => by rw [hlock u hu]; rfl
  refine ⟨hbook, List.length_replicate, Nat.zero_le d, tally_eq_zero_iff.2 fun u hu => ?_, fun u hu => ?_⟩
  · rw [hlock u hu]
    rfl
  · rw [hlock u hu]
    trivial

theorem Worker.Works.mono (hu : u.Works h)
    (hstop : h.acceptor = .stopped → h.queue = [] → h'.acceptor = .stopped ∧ h'.queue = []) : u.Works h' := by
  cases u with
  | received conn =>
    cases conn with
    | none => exact hstop hu.1 hu.2
    | some => trivial
  | stopped => exact hstop hu.1 hu.2
  | dead => exact hu
  | _ => trivial

theorem Inv.locked_of_guards (hinv : Inv w d s) (hk : s.tasks[k]? = some u) (hu : u.guards = 1) : s.shared.locked = true := by
  have hle := le_tally Worker.guards hk
  have hguard := hinv.guard
  by_contra hlocked
  rw [if_neg hlocked] at hguard
  omega

/-- A worker moves on with the connection it has. -/
theorem Inv.quiet (hinv : Inv w d s) (hk : s.tasks[k]? = some u) (u' : Worker) (hconn : u'.hand = u.hand)
    (hworks : u'.Works s.shared) (locked : Bool)
    (hguard : (if locked then 1 else 0) + u.guards = (if s.shared.locked then 1 else 0) + u'.guards) :
    Inv w d ⟨{ s.shared with locked }, s.tasks.set k u'⟩ := by
  have hguards := tally_set Worker.guards hk u'
  have hlock := hinv.guard
  refine ⟨hinv.book.keep hk hconn, ?_, hinv.queue, ?_, forall_mem_set (fun v hv => ?_) ?_ k⟩
  · rw [List.length_set]
    exact hinv.workers
  · simp only
    omega
  · exact (hinv.works v hv).mono fun h1 h2 => ⟨h1, h2⟩
  · exact hworks.mono fun h1 h2 => ⟨h1, h2⟩

theorem Inv.recv {c : ℕ} {queue : List ℕ} (hinv : Inv w d s) (hk : s.tasks[k]? = some .recv)
    (hqueue : s.shared.queue = c :: queue) :
    Inv w d ⟨{ s.shared with queue, received := s.shared.received ++ [(k, c)] }, s.tasks.set k (.received (some c))⟩ := by
  have hguards := tally_set Worker.guards hk (.received (some c))
  have hlock := hinv.guard
  have hdepth := hinv.queue
  have hbook := hinv.book
  rw [Hub.line, hqueue] at hbook
  rw [hqueue, List.length_cons] at hdepth
  refine ⟨hbook.receive hk rfl rfl, ?_, ?_, ?_, forall_mem_set (fun v hv => ?_) trivial k⟩
  · rw [List.length_set]
    exact hinv.workers
  · simp only
    omega
  · simp only [Worker.guards] at hguards ⊢
    omega
  · exact (hinv.works v hv).mono fun _ h2 => by rw [hqueue] at h2; cases h2

theorem Inv.finish {c : ℕ} (hinv : Inv w d s) (hk : s.tasks[k]? = some (.handling c)) :
    Inv w d ⟨{ s.shared with finished := s.shared.finished ++ [(k, c)] }, s.tasks.set k .lock⟩ := by
  have hguards := tally_set Worker.guards hk .lock
  have hlock := hinv.guard
  refine ⟨hinv.book.finish hk rfl rfl, ?_, hinv.queue, ?_, forall_mem_set (fun v hv => ?_) trivial k⟩
  · rw [List.length_set]
    exact hinv.workers
  · simp only [Worker.guards] at hguards ⊢
    omega
  · exact (hinv.works v hv).mono fun h1 h2 => ⟨h1, h2⟩

theorem Inv.acceptor {acceptor : Acceptor} {accepted : ℕ} {queue : List ℕ} (hinv : Inv w d s)
    (hbook : Book Worker.hand accepted (queue ++ acceptor.hand) s.shared.received s.shared.finished s.tasks)
    (hdepth : queue.length ≤ d) (hopen : s.shared.acceptor ≠ .stopped) :
    Inv w d ⟨{ s.shared with acceptor, queue, accepted }, s.tasks⟩ :=
  ⟨hbook, hinv.workers, hdepth, hinv.guard, fun u hu => (hinv.works u hu).mono fun hstop => absurd hstop hopen⟩

/-- **Every step keeps the invariant**, as long as no handler panics. -/
theorem inv_step (hinv : Inv w d s) (hret : Returns returns s e) (hs : step returns d s e = some t) : Inv w d t := by
  have hbook := hinv.book
  cases stepped_of_step hs with
  | accept haccept =>
    refine hinv.acceptor ?_ hinv.queue (by simp [haccept])
    rw [Hub.line, haccept, show Acceptor.accepting.hand = [] from rfl, List.append_nil] at hbook
    exact hbook.come
  | acceptFails haccept =>
    refine hinv.acceptor ?_ hinv.queue (by simp [haccept])
    rw [Hub.line, haccept] at hbook
    exact hbook
  | send hsend hlt =>
    refine hinv.acceptor ?_ (by rw [List.length_append]; exact hlt) (by simp [hsend])
    rw [Hub.line, hsend] at hbook
    rw [List.append_assoc]
    exact hbook
  | run hk ha =>
    cases ha with
    | lock hlocked => exact hinv.quiet hk .recv rfl trivial true (by rw [hlocked]; rfl)
    | recv hqueue => exact hinv.recv hk hqueue
    | closed hqueue hstop => exact hinv.quiet hk (.received none) rfl ⟨hstop, hqueue⟩ s.shared.locked rfl
    | unlock => exact hinv.quiet hk (.handling _) rfl trivial false (by rw [hinv.locked_of_guards hk rfl]; rfl)
    | stop =>
      have hstop := hinv.works _ (List.mem_of_getElem? hk)
      exact hinv.quiet hk .stopped rfl hstop false (by rw [hinv.locked_of_guards hk rfl]; rfl)
    | finish => exact hinv.finish hk
    | panic hpanic =>
      rw [show returns _ = true from hret] at hpanic
      cases hpanic

theorem inv_run {es : List (Ev ρ)} (hrun : Run (step returns d) (Returns returns) (Pooled.new w) es s) : Inv w d s :=
  hrun.invariant (inv_new w d) fun _ _ _ => inv_step

/-! ## The workers keep going -/

/-- How many steps a worker can take without a new connection, if the channel is closed at the end. -/
def Worker.cost : Worker → ℕ
  | .lock => 3
  | .recv => 2
  | .received none => 1
  | .received (some _) => 5
  | .handling _ => 4
  | .stopped | .dead => 0

def Acceptor.cost : Acceptor → ℕ
  | .accepting => 1
  | .sending _ => 6
  | .stopped => 0

/-- The steps that are left before everything accepted is finished and, once the channel is closed, all workers have
stopped. -/
def potential (s : Pooled) : ℕ := tally Worker.cost s.tasks + 4 * s.shared.queue.length + s.shared.acceptor.cost

/-- **Every step is one of the six that a connection needs.** -/
theorem potential_step (hret : Returns returns s e) (hs : step returns d s e = some t) :
    potential t + 1 + 6 * s.shared.accepted = potential s + 6 * t.shared.accepted := by
  unfold potential
  cases stepped_of_step hs with
  | accept haccept =>
    simp only [haccept, Acceptor.cost]
    omega
  | acceptFails haccept => simp only [haccept, Acceptor.cost]
  | send hsend hlt =>
    simp only [hsend, Acceptor.cost, List.length_append, List.length_singleton]
    omega
  | @run k a u u' h hk ha =>
    have hset := tally_set Worker.cost hk u'
    cases ha with
    | recv hqueue =>
      simp only [Worker.cost] at hset
      simp only [hqueue, List.length_cons]
      omega
    | panic hpanic =>
      rw [show returns _ = true from hret] at hpanic
      cases hpanic
    | _ =>
      simp only [Worker.cost] at hset
      simp only
      omega

theorem potential_run {es : List (Ev ρ)} (hrun : Run (step returns d) (Returns returns) (Pooled.new w) es s) :
    es.length + potential s = 3 * w + 1 + 6 * s.shared.accepted := by
  have hcost : tally Worker.cost (List.replicate w .lock) = 3 * w := by simp [tally, Worker.cost, Nat.mul_comm]
  have hnew : potential (Pooled.new w) = 3 * w + 1 := by simp [potential, Pooled.new, hcost, Acceptor.cost]
  have hpaid := hrun.paid potential (fun u => 6 * u.shared.accepted) (p := fun _ => true) fun _ _ _ => potential_step
  rw [hnew, List.countP_true] at hpaid
  exact hpaid

/-! ## The hand-over -/

/-- **What `serve_pooled` promises** of the connections, with `w` workers and a channel of depth `d`. -/
def HandedOver (w d : ℕ) (s : Pooled) : Prop :=
  Lib.HandedOver Worker.hand Worker.handles w d s.shared.accepted s.shared.line s.shared.received s.shared.finished s.tasks

/-- A step of the accept loop that is no accept, or of a worker that is not in `handle_conn`. -/
def Ev.internal : Ev ρ → Prop
  | .send | .run _ .lock | .run _ .recv | .run _ .unlock => True
  | _ => False

/-- The accept loop or a worker can move on, or a worker is handling a connection. -/
inductive Moves (returns : ρ → Bool) (d : ℕ) (s : Pooled) : Prop
  | step {e : Ev ρ} {t : Pooled} : e.internal → step returns d s e = some t → Moves returns d s
  | handling {k c : ℕ} : s.tasks[k]? = some (.handling c) → Moves returns d s

theorem Inv.length_line (hinv : Inv w d s) : s.shared.line.length ≤ d + 1 := by
  have hdepth := hinv.queue
  have hhand : s.shared.acceptor.hand.length ≤ 1 := by cases s.shared.acceptor <;> simp [Acceptor.hand]
  rw [Hub.line, List.length_append]
  omega

theorem Inv.handedOver (hinv : Inv w d s) : HandedOver w d s := by
  have hone : ∀ u : Worker, u.hand.length ≤ 1 := by
    intro u
    unfold Worker.hand
    cases u.conn <;> simp
  have hhandles : ∀ u : Worker, u.handles ≤ 1 := fun u => by cases u <;> simp [Worker.handles]
  have hover := hinv.book.handedOver hone hhandles hinv.length_line
  rw [hinv.workers] at hover
  exact hover

theorem moves_of_hand (hk : s.tasks[k]? = some u) (hu : u.hand ≠ []) : Moves returns d s := by
  cases u with
  | received conn =>
    cases conn with
    | none => exact absurd rfl hu
    | some c => exact .step (e := .run k .unlock) trivial (by simp only [step, runLocal, hk, Option.bind_some, act]; rfl)
  | handling c => exact .handling hk
  | _ => exact absurd rfl hu

/-- As long as the channel is not empty, somebody can move on, or is handling a connection. -/
theorem moves_of_queue (hinv : Inv w d s) (hw : 1 ≤ w) (hqueue : s.shared.queue ≠ []) : Moves returns d s := by
  obtain ⟨c, queue, hcons⟩ := List.exists_cons_of_ne_nil hqueue
  by_cases hlocked : s.shared.locked = true
  · -- whoever has the lock can move on
    have hguard := hinv.guard
    rw [if_pos hlocked] at hguard
    obtain ⟨u, hu, hpos⟩ := tally_pos_iff.1 (show 0 < tally Worker.guards s.tasks by omega)
    obtain ⟨k, hk⟩ := List.mem_iff_getElem?.1 hu
    cases u with
    | recv => exact .step (e := .run k .recv) trivial (by simp only [step, runLocal, hk, Option.bind_some, act, hcons]; rfl)
    | received conn =>
      cases conn with
      | none => exact absurd (hinv.works _ hu).2 hqueue
      | some c => exact moves_of_hand hk (List.cons_ne_nil c [])
    | _ => cases hpos
  · -- nobody has it: the first worker takes it, or is handling a connection
    obtain ⟨u, hk⟩ : ∃ u, s.tasks[0]? = some u := by
      rw [← hinv.workers] at hw
      exact ⟨_, List.getElem?_eq_getElem (by omega)⟩
    have hmem := List.mem_of_getElem? hk
    have hnot : u.guards ≠ 1 := fun hu => hlocked (hinv.locked_of_guards hk hu)
    cases u with
    | lock =>
      refine .step (e := .run 0 .lock) (t := ⟨{ s.shared with locked := true }, s.tasks.set 0 .recv⟩) trivial ?_
      simp [step, runLocal, hk, act, hlocked]
    | handling c => exact .handling hk
    | stopped => exact absurd (hinv.works _ hmem).2 hqueue
    | dead => exact (hinv.works _ hmem).elim
    | _ => exact absurd rfl hnot

/-- **Nobody waits for ever**, as long as a connection is accepted and not finished. -/
theorem Inv.moves (hinv : Inv w d s) (hw : 1 ≤ w) (hd : 1 ≤ d) (hopen : s.shared.finished.length < s.shared.accepted) :
    Moves returns d s := by
  by_cases hqueue : s.shared.queue = []
  · cases haccept : s.shared.acceptor with
    | sending c =>
      refine .step (e := .send) (t := ⟨{ s.shared with acceptor := .accepting, queue := [c] }, s.tasks⟩) trivial ?_
      simp only [step, haccept, hqueue, List.length_nil, List.nil_append]
      rw [if_pos (Nat.lt_of_lt_of_le Nat.zero_lt_one hd)]
    | accepting | stopped =>
      have hbook := hinv.book
      rw [Hub.line, haccept, hqueue] at hbook
      obtain ⟨k, u, hk, hu⟩ := hbook.exists_inHand hopen
      exact moves_of_hand hk hu
  · exact moves_of_queue hinv hw hqueue

end ServiceProxy.ServePooled
