import ServiceProxy.Lib.Transition
import ServiceProxy.Lib.Threads

/-!
# The connection pool of `upstream/pool.rs`

`Pool::get` and `Pool::put` as threads over the shared pool, one atomic operation, one section under the `idle` lock,
or one await at a time.  A *request* is one life cycle `get … put`: it stands at a `Pc`, which names the next thing its
code does.

* `Pool` — the fields of `struct Pool`, with the two pieces of the world they stand for: the open sockets and the
  number of connections dialed so far.  `Notify` is its stored permit; its waiters are the requests at `getParked`.
* `act` — what a request does on its own;
* `notifyOne` — `Notify::notify_one`: wake one parked waiter, or store the permit;
* `cancel` — the request's future is dropped at an await point;
* `Manager` — one pool for every distinct address.
-/

namespace ServiceProxy.Upstream

open ServiceProxy.Lib

/-! ## Data -/

/-- A connection: the address it was dialed to, and its number among the connections dialed there. -/
structure Conn where
  addr : String
  id : ℕ
  deriving DecidableEq, Repr

/-- `struct Pool`.  `idle` is the `Vec` behind the lock, the element `pop` takes first; `permit` is the state of
`notify` when nobody waits.  `sockets` and `dialed` are the kernel's side: the open sockets, and how many connections
were dialed. -/
structure Pool where
  addr : String
  maxSize : ℕ
  idle : List Conn
  outstanding : ℕ
  permit : Bool
  sockets : List Conn
  dialed : ℕ
  deriving DecidableEq, Repr

/-- `Pool::new`. -/
def Pool.new (addr : String) (maxSize : ℕ) : Pool :=
  { addr, maxSize, idle := [], outstanding := 0, permit := false, sockets := [], dialed := 0 }

/-- `AtomicUsize::fetch_sub(1)` on a 64-bit target: below zero it wraps. -/
def fetchSub (n : ℕ) : ℕ := if n = 0 then 2 ^ 64 - 1 else n - 1

/-- Where a request stands: each constructor names what its code does next. -/
inductive Pc
  /-- `get`: waiting for the `idle` lock, at the head of the loop -/
  | getLock
  /-- `get`: nothing was idle and the lock is released, before `fetch_add` -/
  | getAdd
  /-- `get`: in `dial(&self.addr).await`, with a slot -/
  | getDial
  /-- `get`: the dial failed, before `fetch_sub` -/
  | getDialErr
  /-- `get`: the slot was refused, before `fetch_sub` -/
  | getSub
  /-- `get`: before the first poll of `self.notify.notified()` -/
  | getNotified
  /-- `get`: parked in `notified().await` -/
  | getParked
  /-- `get`: parked, a wake-up is delivered -/
  | getWoken
  /-- `get` returned the connection and the caller holds it -/
  | lent (c : Conn)
  /-- `put(c, true)`: waiting for the `idle` lock -/
  | putLock (c : Conn)
  /-- `put`: before `drop(conn)` -/
  | putDrop (c : Conn)
  /-- `put`: the connection is closed, before `fetch_sub` -/
  | putSub
  /-- `put`: before `notify_one` -/
  | putNotify
  /-- the request is over -/
  | ended
  deriving DecidableEq, Repr

/-- What a request does next: one operation of its code, with the outcome the environment chooses. -/
inductive Act
  | lock
  | fetchAdd
  | dialOk
  | dialErr
  | fetchSub
  | poll
  | resume
  | put (healthy : Bool)
  | drop
  deriving DecidableEq, Repr

abbrev Sys := Threads Pool Pc

def Sys.new (addr : String) (maxSize : ℕ) : Sys := ⟨Pool.new addr maxSize, []⟩

/-! ## The code -/

def act (p : Pool) : Pc → Act → Option (Pool × Pc)
  -- `get`: `idle.lock().await`, `idle.pop()`
  | .getLock, .lock =>
    match p.idle with
    | c :: rest => some ({ p with idle := rest }, .lent c)
    | [] => some (p, .getAdd)
  -- `let prev = self.outstanding.fetch_add(1)`, `prev < self.max_size`
  | .getAdd, .fetchAdd =>
    some ({ p with outstanding := p.outstanding + 1 },
      if p.outstanding < p.maxSize then .getDial else .getSub)
  | .getDial, .dialOk =>
    some ({ p with sockets := ⟨p.addr, p.dialed⟩ :: p.sockets, dialed := p.dialed + 1 },
      .lent ⟨p.addr, p.dialed⟩)
  | .getDial, .dialErr => some (p, .getDialErr)
  | .getDialErr, .fetchSub => some ({ p with outstanding := fetchSub p.outstanding }, .ended)
  | .getSub, .fetchSub => some ({ p with outstanding := fetchSub p.outstanding }, .getNotified)
  -- the first poll of `notified()` takes the permit or parks
  | .getNotified, .poll =>
    if p.permit then some ({ p with permit := false }, .getLock) else some (p, .getParked)
  | .getWoken, .resume => some (p, .getLock)
  | .lent c, .put healthy => some (p, if healthy then .putLock c else .putDrop c)
  -- `put`: `idle.lock().await`, `idle.len() < self.max_size`
  | .putLock c, .lock =>
    if p.idle.length < p.maxSize then some ({ p with idle := c :: p.idle }, .putNotify)
    else some (p, .putDrop c)
  | .putDrop c, .drop => some ({ p with sockets := p.sockets.erase c }, .putSub)
  | .putSub, .fetchSub => some ({ p with outstanding := fetchSub p.outstanding }, .putNotify)
  | _, _ => none

/-- `Notify::notify_one`: wake the parked waiter `w`, or, when nobody is parked, store the permit. -/
def notifyOne (s : Sys) : Option ℕ → Option Sys
  | some w => if s.tasks[w]? = some .getParked then some ⟨s.shared, s.tasks.set w .getWoken⟩ else none
  | none => if .getParked ∈ s.tasks then none else some ⟨{ s.shared with permit := true }, s.tasks⟩

/-- The future of request `i` is dropped at an await point.  A connection it owns is closed with it; a parked waiter
that was woken hands its wake-up on (`Notified::drop`). -/
def cancel (s : Sys) (i : ℕ) (w : Option ℕ) : Option Sys :=
  match s.tasks[i]? with
  | some .getLock | some .getDial | some .getParked => some ⟨s.shared, s.tasks.set i .ended⟩
  | some .getWoken => notifyOne ⟨s.shared, s.tasks.set i .ended⟩ w
  | some (.lent c) | some (.putLock c) =>
    some ⟨{ s.shared with sockets := s.shared.sockets.erase c }, s.tasks.set i .ended⟩
  | _ => none

inductive Ev
  /-- a new request calls `get` -/
  | call
  /-- request `i` does one operation -/
  | run (i : ℕ) (a : Act)
  /-- request `i` calls `notify_one`, which chooses the waiter `w` -/
  | notify (i : ℕ) (w : Option ℕ)
  /-- the future of request `i` is dropped -/
  | cancel (i : ℕ) (w : Option ℕ)
  deriving DecidableEq, Repr

/-- One step of a pool and its requests. -/
def step (s : Sys) : Ev → Option Sys
  | .call => some ⟨s.shared, s.tasks ++ [.getLock]⟩
  | .run i a => runLocal act s i a
  | .notify i w =>
    if s.tasks[i]? = some .putNotify then notifyOne ⟨s.shared, s.tasks.set i .ended⟩ w else none
  | .cancel i w => cancel s i w

/-! ## The manager -/

/-- `struct Manager`: the pools by address, each with its requests. -/
abbrev Manager := String → Option Sys

/-- `Manager::new`: a later duplicate of an address replaces the pool made for the earlier one. -/
def Manager.new (addrs : List String) (sizePerUpstream : ℕ) : Manager :=
  addrs.foldl (fun pools addr => Function.update pools addr (some (Sys.new addr sizePerUpstream))) fun _ => none

abbrev Manager.step : Manager → String × Ev → Option Manager := famStep Upstream.step

theorem Manager.new_eq (addrs : List String) (m : ℕ) (a : String) :
    Manager.new addrs m a = if a ∈ addrs then some (Sys.new a m) else none := by
  have key : ∀ (l : List String) (M : Manager),
      l.foldl (fun pools addr => Function.update pools addr (some (Sys.new addr m))) M a
        = if a ∈ l then some (Sys.new a m) else M a := by
    intro l
    induction l with
    | nil => intro M; simp
    | cons b l ih =>
      intro M
      rw [List.foldl_cons, ih]
      by_cases hl : a ∈ l
      · simp [hl]
      · by_cases hb : a = b
        · subst hb; simp [hl]
        · simp [hl, hb]
  exact key addrs fun _ => none

/-! ## What a step can do -/

inductive Acted (p : Pool) : Pc → Act → Pool → Pc → Prop
  | pop {c : Conn} {rest : List Conn} : p.idle = c :: rest → Acted p .getLock .lock { p with idle := rest } (.lent c)
  | empty : p.idle = [] → Acted p .getLock .lock p .getAdd
  | accept : p.outstanding < p.maxSize →
      Acted p .getAdd .fetchAdd { p with outstanding := p.outstanding + 1 } .getDial
  | refuse : p.maxSize ≤ p.outstanding →
      Acted p .getAdd .fetchAdd { p with outstanding := p.outstanding + 1 } .getSub
  | dialOk : Acted p .getDial .dialOk
      { p with sockets := ⟨p.addr, p.dialed⟩ :: p.sockets, dialed := p.dialed + 1 } (.lent ⟨p.addr, p.dialed⟩)
  | dialErr : Acted p .getDial .dialErr p .getDialErr
  | dialSub : Acted p .getDialErr .fetchSub { p with outstanding := fetchSub p.outstanding } .ended
  | refuseSub : Acted p .getSub .fetchSub { p with outstanding := fetchSub p.outstanding } .getNotified
  | permit : p.permit = true → Acted p .getNotified .poll { p with permit := false } .getLock
  | park : p.permit = false → Acted p .getNotified .poll p .getParked
  | resume : Acted p .getWoken .resume p .getLock
  | putHealthy {c : Conn} : Acted p (.lent c) (.put true) p (.putLock c)
  | putBroken {c : Conn} : Acted p (.lent c) (.put false) p (.putDrop c)
  | push {c : Conn} : p.idle.length < p.maxSize →
      Acted p (.putLock c) .lock { p with idle := c :: p.idle } .putNotify
  | overflow {c : Conn} : p.maxSize ≤ p.idle.length → Acted p (.putLock c) .lock p (.putDrop c)
  | drop {c : Conn} : Acted p (.putDrop c) .drop { p with sockets := p.sockets.erase c } .putSub
  | putSub : Acted p .putSub .fetchSub { p with outstanding := fetchSub p.outstanding } .putNotify

/-- **Inversion of `act`.** -/
theorem acted_of_act {p p' : Pool} {pc pc' : Pc} {a : Act} (h : act p pc a = some (p', pc')) :
    Acted p pc a p' pc' := by
  unfold act at h
  split at h <;> (try split at h) <;> simp only [Option.some.injEq, Prod.mk.injEq, reduceCtorEq] at h <;>
    obtain ⟨rfl, rfl⟩ := h
  · exact .pop ‹_›
  · exact .empty ‹_›
  · exact .accept ‹_›
  · exact .refuse (by omega)
  · exact .dialOk
  · exact .dialErr
  · exact .dialSub
  · exact .refuseSub
  · exact .permit ‹_›
  · exact .park (Bool.eq_false_of_not_eq_true ‹_›)
  · exact .resume
  · rename_i hhealthy
    rw [hhealthy]
    exact .putHealthy
  · rename_i hbroken
    rw [Bool.eq_false_of_not_eq_true hbroken]
    exact .putBroken
  · exact .push ‹_›
  · exact .overflow (by omega)
  · exact .drop
  · exact .putSub

inductive Notified (s : Sys) : Option ℕ → Sys → Prop
  | wake {w : ℕ} : s.tasks[w]? = some .getParked → Notified s (some w) ⟨s.shared, s.tasks.set w .getWoken⟩
  | store : .getParked ∉ s.tasks → Notified s none ⟨{ s.shared with permit := true }, s.tasks⟩

theorem notified_of_notifyOne {s t : Sys} {w : Option ℕ} (h : notifyOne s w = some t) : Notified s w t := by
  cases w with
  | some w =>
    simp only [notifyOne] at h
    split at h
    · obtain rfl := Option.some.inj h
      exact .wake ‹_›
    · cases h
  | none =>
    simp only [notifyOne] at h
    split at h
    · cases h
    · obtain rfl := Option.some.inj h
      exact .store ‹_›

inductive Stepped (s : Sys) : Ev → Sys → Prop
  | call : Stepped s .call ⟨s.shared, s.tasks ++ [.getLock]⟩
  | run {i : ℕ} {a : Act} {pc pc' : Pc} {p : Pool} : s.tasks[i]? = some pc → Acted s.shared pc a p pc' →
      Stepped s (.run i a) ⟨p, s.tasks.set i pc'⟩
  | notify {i : ℕ} {w : Option ℕ} {t : Sys} : s.tasks[i]? = some .putNotify →
      Notified ⟨s.shared, s.tasks.set i .ended⟩ w t → Stepped s (.notify i w) t
  | cancelFree {i : ℕ} {w : Option ℕ} {pc : Pc} : s.tasks[i]? = some pc → pc = .getLock ∨ pc = .getParked →
      Stepped s (.cancel i w) ⟨s.shared, s.tasks.set i .ended⟩
  | cancelDial {i : ℕ} {w : Option ℕ} : s.tasks[i]? = some .getDial →
      Stepped s (.cancel i w) ⟨s.shared, s.tasks.set i .ended⟩
  | cancelWoken {i : ℕ} {w : Option ℕ} {t : Sys} : s.tasks[i]? = some .getWoken →
      Notified ⟨s.shared, s.tasks.set i .ended⟩ w t → Stepped s (.cancel i w) t
  | cancelConn {i : ℕ} {w : Option ℕ} {pc : Pc} {c : Conn} : s.tasks[i]? = some pc →
      pc = .lent c ∨ pc = .putLock c →
      Stepped s (.cancel i w) ⟨{ s.shared with sockets := s.shared.sockets.erase c }, s.tasks.set i .ended⟩

/-- **Inversion of `step`.** -/
theorem stepped_of_step {s t : Sys} {e : Ev} (h : step s e = some t) : Stepped s e t := by
  cases e with
  | call =>
    obtain rfl : _ = t := by simpa [step] using h
    exact .call
  | run i a =>
    obtain ⟨pc, p, pc', hi, ha, rfl⟩ := runLocal_eq_some h
    exact .run hi (acted_of_act ha)
  | notify i w =>
    simp only [step] at h
    split at h
    · exact .notify ‹_› (notified_of_notifyOne h)
    · cases h
  | cancel i w =>
    simp only [step, cancel] at h
    split at h
    · obtain rfl := Option.some.inj h
      exact .cancelFree ‹_› (.inl rfl)
    · obtain rfl := Option.some.inj h
      exact .cancelDial ‹_›
    · obtain rfl := Option.some.inj h
      exact .cancelFree ‹_› (.inr rfl)
    · exact .cancelWoken ‹_› (notified_of_notifyOne h)
    · obtain rfl := Option.some.inj h
      exact .cancelConn ‹_› (.inl rfl)
    · obtain rfl := Option.some.inj h
      exact .cancelConn ‹_› (.inr rfl)
    · cases h

end ServiceProxy.Upstream
