import ServiceProxy.Upstream.Pool

/-!
# The connection pool of `go/internal/upstream/pool.go`

`Get` and `Put` of the Go pool as threads over the shared pool, one operation on the channel, one atomic operation or
one dial at a time.  The channel `conns` is a FIFO buffer of `maxSize` places; a send hands its value to a blocked
receiver if there is one.  `outstanding` is an `atomic.Int32`: it wraps, and `maxSize` is cut to 32 bits before it is
compared with it.

The places of a request are, in the order of the code: `getTry` (the first `select`), `getAdd` (`Add(1)`), `getDial`
(in `Dial`), `getDialErr` (the dial failed, before `Add(-1)`), `getSub` (refused, before `Add(-1)`), `getSelect` (the
second `select`), `getBlocked` (blocked in it), `lent c` (the caller holds the connection), `putSelect c` (the `select`
of a healthy `Put`), `putClose c` (before `Close`), `putSub` (closed, before `Add(-1)`), `ended`.
-/

namespace ServiceProxy.Go

open ServiceProxy.Lib

export ServiceProxy.Upstream (Conn)

/-! ## The code -/

/-- `type Pool`, with the open sockets and the number of connections dialed so far. -/
structure Pool where
  addr : String
  conns : List Conn
  maxSize : ℕ
  outstanding : ℤ
  sockets : List Conn
  dialed : ℕ
  deriving DecidableEq, Repr

/-- `NewPool`. -/
def Pool.new (addr : String) (maxSize : ℕ) : Pool :=
  { addr, conns := [], maxSize, outstanding := 0, sockets := [], dialed := 0 }

/-- The value of an `int32` after wrapping. -/
def int32 (n : ℤ) : ℤ := n.bmod (2 ^ 32)

/-- Where a request stands (see the module's text). -/
inductive Pc
  | getTry | getAdd | getDial | getDialErr | getSub | getSelect | getBlocked
  | lent (c : Conn) | putSelect (c : Conn) | putClose (c : Conn) | putSub | ended
  deriving DecidableEq, Repr

/-- What a request does next, with the outcome the environment chooses. -/
inductive Act
  | recv | add | dialOk | dialErr | sub | ctxDone | put (healthy : Bool) | close
  deriving DecidableEq, Repr

abbrev Sys := Threads Pool Pc

def Sys.new (addr : String) (maxSize : ℕ) : Sys := ⟨Pool.new addr maxSize, []⟩

/-- One operation of a request on the pool, the send of `Put` apart. -/
def act (p : Pool) : Pc → Act → Option (Pool × Pc)
  | .getTry, .recv =>
    match p.conns with
    | c :: rest => some ({ p with conns := rest }, .lent c)
    | [] => some (p, .getAdd)
  -- `p.outstanding.Add(1) <= int32(p.maxSize)`
  | .getAdd, .add =>
    some ({ p with outstanding := int32 (p.outstanding + 1) },
      if int32 (p.outstanding + 1) ≤ int32 p.maxSize then .getDial else .getSub)
  | .getDial, .dialOk =>
    some ({ p with sockets := ⟨p.addr, p.dialed⟩ :: p.sockets, dialed := p.dialed + 1 },
      .lent ⟨p.addr, p.dialed⟩)
  | .getDial, .dialErr => some (p, .getDialErr)
  | .getDialErr, .sub => some ({ p with outstanding := int32 (p.outstanding - 1) }, .ended)
  | .getSub, .sub => some ({ p with outstanding := int32 (p.outstanding - 1) }, .getSelect)
  | .getSelect, .recv =>
    match p.conns with
    | c :: rest => some ({ p with conns := rest }, .lent c)
    | [] => some (p, .getBlocked)
  | .getSelect, .ctxDone => some (p, .ended)
  | .getBlocked, .ctxDone => some (p, .ended)
  | .lent c, .put healthy => some (p, if healthy then .putSelect c else .putClose c)
  | .putClose c, .close => some ({ p with sockets := p.sockets.erase c }, .putSub)
  | .putSub, .sub => some ({ p with outstanding := int32 (p.outstanding - 1) }, .ended)
  | _, _ => none

/-- The events of a pool: a new request calls `Get`, a request does one operation, or the `select` of `Put` sends to the
blocked receiver `w`, or into the buffer, or takes its `default` branch. -/
inductive Ev
  | call
  | run (i : ℕ) (a : Act)
  | send (i : ℕ) (w : Option ℕ)
  deriving DecidableEq, Repr

/-- The `select` of `Put` by request `i`. -/
def send (s : Sys) (i : ℕ) (c : Conn) : Option ℕ → Option Sys
  | some w =>
    if s.tasks[w]? = some .getBlocked then some ⟨s.shared, (s.tasks.set i .ended).set w (.lent c)⟩ else none
  | none =>
    if .getBlocked ∈ s.tasks then none
    else if s.shared.conns.length < s.shared.maxSize then
      some ⟨{ s.shared with conns := s.shared.conns ++ [c] }, s.tasks.set i .ended⟩
    else some ⟨s.shared, s.tasks.set i (.putClose c)⟩

/-- One step of a pool and its requests. -/
def step (s : Sys) : Ev → Option Sys
  | .call => some ⟨s.shared, s.tasks ++ [.getTry]⟩
  | .run i a => runLocal act s i a
  | .send i w =>
    match s.tasks[i]? with
    | some (.putSelect c) => send s i c w
    | _ => none

/-! ## What a step can do -/

inductive Acted (p : Pool) : Pc → Act → Pool → Pc → Prop
  | tryRecv {c : Conn} {rest : List Conn} : p.conns = c :: rest →
      Acted p .getTry .recv { p with conns := rest } (.lent c)
  | tryEmpty : p.conns = [] → Acted p .getTry .recv p .getAdd
  | accept : int32 (p.outstanding + 1) ≤ int32 p.maxSize →
      Acted p .getAdd .add { p with outstanding := int32 (p.outstanding + 1) } .getDial
  | refuse : int32 p.maxSize < int32 (p.outstanding + 1) →
      Acted p .getAdd .add { p with outstanding := int32 (p.outstanding + 1) } .getSub
  | dialOk : Acted p .getDial .dialOk
      { p with sockets := ⟨p.addr, p.dialed⟩ :: p.sockets, dialed := p.dialed + 1 } (.lent ⟨p.addr, p.dialed⟩)
  | dialErr : Acted p .getDial .dialErr p .getDialErr
  | dialSub : Acted p .getDialErr .sub { p with outstanding := int32 (p.outstanding - 1) } .ended
  | refuseSub : Acted p .getSub .sub { p with outstanding := int32 (p.outstanding - 1) } .getSelect
  | selectRecv {c : Conn} {rest : List Conn} : p.conns = c :: rest →
      Acted p .getSelect .recv { p with conns := rest } (.lent c)
  | block : p.conns = [] → Acted p .getSelect .recv p .getBlocked
  | selectDone : Acted p .getSelect .ctxDone p .ended
  | blockedDone : Acted p .getBlocked .ctxDone p .ended
  | putHealthy {c : Conn} : Acted p (.lent c) (.put true) p (.putSelect c)
  | putBroken {c : Conn} : Acted p (.lent c) (.put false) p (.putClose c)
  | close {c : Conn} : Acted p (.putClose c) .close { p with sockets := p.sockets.erase c } .putSub
  | putSub : Acted p .putSub .sub { p with outstanding := int32 (p.outstanding - 1) } .ended

/-- **Inversion of `act`.** -/
theorem acted_of_act {p p' : Pool} {pc pc' : Pc} {a : Act} (h : act p pc a = some (p', pc')) :
    Acted p pc a p' pc' := by
  unfold act at h
  split at h <;> (try split at h) <;> simp only [Option.some.injEq, Prod.mk.injEq, reduceCtorEq] at h <;>
    obtain ⟨rfl, rfl⟩ := h
  · exact .tryRecv ‹_›
  · exact .tryEmpty ‹_›
  · exact .accept ‹_›
  · exact .refuse (by omega)
  · exact .dialOk
  · exact .dialErr
  · exact .dialSub
  · exact .refuseSub
  · exact .selectRecv ‹_›
  · exact .block ‹_›
  · exact .selectDone
  · exact .blockedDone
  · rename_i hhealthy
    rw [hhealthy]
    exact .putHealthy
  · rename_i hbroken
    rw [Bool.eq_false_of_not_eq_true hbroken]
    exact .putBroken
  · exact .close
  · exact .putSub

inductive Stepped (s : Sys) : Ev → Sys → Prop
  | call : Stepped s .call ⟨s.shared, s.tasks ++ [.getTry]⟩
  | run {i : ℕ} {a : Act} {pc pc' : Pc} {p : Pool} : s.tasks[i]? = some pc → Acted s.shared pc a p pc' →
      Stepped s (.run i a) ⟨p, s.tasks.set i pc'⟩
  | handOff {i w : ℕ} {c : Conn} : s.tasks[i]? = some (.putSelect c) → (s.tasks.set i .ended)[w]? = some .getBlocked →
      Stepped s (.send i (some w)) ⟨s.shared, (s.tasks.set i .ended).set w (.lent c)⟩
  | enqueue {i : ℕ} {c : Conn} : s.tasks[i]? = some (.putSelect c) → .getBlocked ∉ s.tasks →
      s.shared.conns.length < s.shared.maxSize →
      Stepped s (.send i none) ⟨{ s.shared with conns := s.shared.conns ++ [c] }, s.tasks.set i .ended⟩
  | overflow {i : ℕ} {c : Conn} : s.tasks[i]? = some (.putSelect c) → .getBlocked ∉ s.tasks →
      s.shared.maxSize ≤ s.shared.conns.length → Stepped s (.send i none) ⟨s.shared, s.tasks.set i (.putClose c)⟩

/-- **Inversion of `step`.** -/
theorem stepped_of_step {s t : Sys} {e : Ev} (h : step s e = some t) : Stepped s e t := by
  cases e with
  | call =>
    obtain rfl : _ = t := by simpa [step] using h
    exact .call
  | run i a =>
    obtain ⟨pc, p, pc', hi, ha, rfl⟩ := runLocal_eq_some h
    exact .run hi (acted_of_act ha)
  | send i w =>
    simp only [step] at h
    split at h
    · rename_i c hi
      cases w with
      | some w =>
        simp only [send] at h
        split at h
        · rename_i hw
          obtain rfl := Option.some.inj h
          refine .handOff hi ?_
          have hne : i ≠ w := by
            rintro rfl
            rw [hi] at hw
            simp at hw
          rw [List.getElem?_set_ne hne]
          exact hw
        · cases h
      | none =>
        simp only [send] at h
        split at h
        · cases h
        · split at h
          · obtain rfl := Option.some.inj h
            exact .enqueue hi ‹_› ‹_›
          · obtain rfl := Option.some.inj h
            exact .overflow hi ‹_› (by omega)
    · cases h

end ServiceProxy.Go
