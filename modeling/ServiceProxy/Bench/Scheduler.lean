import ServiceProxy.Bench.Stats
import ServiceProxy.Lib.GoChannel
import ServiceProxy.Lib.Threads
import ServiceProxy.Lib.Transition

/-!
# The scheduler of the load generator (`go/cmd/quic-bench-client/scheduler.go`)

`run` starts a goroutine `dispatchOne` for every tick it receives before the deadline; the goroutines take a place in the
channel `sem` and send their sample on the channel `results`, from which one more goroutine collects them.  They run one
operation at a time, in any order.

* The ticker delivers ticks that are due at `start + j * interval`, each of them not before it is due, with growing `j`: it
  drops ticks for a slow receiver.
* What the streams do is left open, so the payload, the timeout and the deadline that is set on a stream play no role.
* The places of `dispatchOne` are, in the order of the code: `acquire` (before `sem <- struct{}{}`), `start` (before
  `time.Now()`), `openStream`, `writeFrame` and `readFrame` (in the call), `send` (before `results <-`), and in the deferred
  calls `release` (before `<-sem`), `finish` (before `wg.Done()`) and `ended`.
-/

namespace ServiceProxy.Bench

open ServiceProxy.Lib

/-! ## The code -/

/-- `type runConfig`. -/
structure RunConfig where
  rate : Int64
  duration : Int64
  maxInflight : Int64
  deriving DecidableEq, Repr

/-- `time.Second / time.Duration(cfg.rate)`. -/
def RunConfig.interval (cfg : RunConfig) : Int64 := 1000000000 / cfg.rate

/-- Where the goroutine of `run` stands: in `range ticker.C`, before `wg.Wait()`, before `close(results)`, before `<-done`. -/
inductive Main
  | ticks | wait | close | done | returned
  deriving DecidableEq, Repr

/-- Where the collector stands: in `range results`, before `close(done)`, after it. -/
inductive Collector
  | ranging | closing | ended
  deriving DecidableEq, Repr

/-- What the goroutines share.  `last` is the number of the last tick that the ticker has delivered. -/
structure Shared where
  main : Main
  seq : Int64
  last : ℕ
  sem : Chan Unit
  results : Chan Sample
  wg : ℤ
  collector : Collector
  collected : List Sample
  panic : Option GoPanic
  deriving DecidableEq

inductive Pc
  | acquire | start
  | openStream (actualSend : Time) | writeFrame (actualSend : Time) | readFrame (actualSend : Time)
  | send (s : Sample)
  | release | finish | ended
  deriving DecidableEq, Repr

/-- A call of `dispatchOne`, and the number of the tick it was started for. -/
structure Dispatch where
  tick : ℕ
  conn : ℕ
  seq : Int64
  intended : Time
  pc : Pc
  deriving DecidableEq, Repr

/-- `go dispatchOne(..)`. -/
def Dispatch.new (tick conn : ℕ) (seq : Int64) (intended : Time) : Dispatch := { tick, conn, seq, intended, pc := .acquire }

/-- An operation of `dispatchOne`: on a channel or the wait group, `time.Now()`, or a call on the stream that returns; if
there is a sample to be sent, it is completed at `t`. -/
inductive Act
  | sync | now (t : Time) | returns (err : Option String) (t : Time)
  deriving DecidableEq, Repr

/-- The sample of a call. -/
def Dispatch.sample (d : Dispatch) (actualSend completed : Time) (err : Option String) : Sample :=
  { seq := d.seq, intendedSend := d.intended, actualSend, completed, err }

/-- `dispatchOne`. -/
def act (γ : Shared) (d : Dispatch) (a : Act) : Option (Shared × Dispatch) :=
  match d.pc, a with
  | .acquire, .sync =>
    match γ.sem.send () with
    | some (.ok sem) => some ({ γ with sem }, { d with pc := .start })
    | some (.error p) => some ({ γ with panic := some p }, d)
    | none => none
  | .start, .now t => some (γ, { d with pc := .openStream t })
  | .openStream actualSend, .returns none _ => some (γ, { d with pc := .writeFrame actualSend })
  | .openStream actualSend, .returns (some err) t => some (γ, { d with pc := .send (d.sample actualSend t (some err)) })
  | .writeFrame actualSend, .returns none _ => some (γ, { d with pc := .readFrame actualSend })
  | .writeFrame actualSend, .returns (some err) t => some (γ, { d with pc := .send (d.sample actualSend t (some err)) })
  | .readFrame actualSend, .returns err t => some (γ, { d with pc := .send (d.sample actualSend t err) })
  | .send s, .sync =>
    match γ.results.send s with
    | some (.ok results) => some ({ γ with results }, { d with pc := .release })
    | some (.error p) => some ({ γ with panic := some p }, d)
    | none => none
  | .release, .sync => γ.sem.recv.map fun p => ({ γ with sem := p.2 }, { d with pc := .finish })
  | .finish, .sync =>
    if γ.wg - 1 < 0 then some ({ γ with panic := some .negativeCounter }, d)
    else some ({ γ with wg := γ.wg - 1 }, { d with pc := .ended })
  | _, _ => none

abbrev Sys := Threads Shared Dispatch

def Sys.new (sem : Chan Unit) (results : Chan Sample) : Sys :=
  ⟨{ main := .ticks, seq := 0, last := 0, sem, results, wg := 0, collector := .ranging, collected := [], panic := none }, []⟩

/-- `run` up to its loop.  A buffer for samples holds no more than `limit` of them; elements of `sem` have no size. -/
def launch (limit : ℕ) (cfg : RunConfig) : Except GoPanic Sys := do
  if cfg.rate = 0 then throw .divide
  let sem ← Chan.make (2 ^ 63 - 1) cfg.maxInflight.toInt
  let results ← Chan.make limit (cfg.maxInflight * 2).toInt
  if cfg.interval ≤ 0 then throw .nonPositiveInterval
  return .new sem results

/-- `int(seq-1) % len(conns)`, if that is an index of `conns`. -/
def connOf (conns : ℕ) (seq : Int64) : Except GoPanic ℕ :=
  if conns = 0 then throw .divide
  else if (seq - 1).toInt.tmod conns < 0 then throw .indexOutOfRange
  else return ((seq - 1).toInt.tmod conns).toNat

/-- When the tick `j` is due. -/
def due (cfg : RunConfig) (start : Time) (j : ℕ) : Time := start + j * cfg.interval.toInt

/-- `start.Add(cfg.duration)`. -/
def deadline (cfg : RunConfig) (start : Time) : Time := start + cfg.duration.toInt

/-- The body of the loop of `run`, for the tick `j` that was sent at `now`. -/
def receive (cfg : RunConfig) (conns : ℕ) (start : Time) (s : Sys) (j : ℕ) (now : Time) : Sys :=
  let γ := { s.shared with last := j }
  if deadline cfg start < now then ⟨{ γ with main := .wait }, s.tasks⟩
  else
    let seq := γ.seq + 1
    let intended := start + (seq * cfg.interval).toInt
    match connOf conns seq with
    | .ok conn => ⟨{ γ with seq, wg := γ.wg + 1 }, s.tasks ++ [.new j conn seq intended]⟩
    | .error p => ⟨{ γ with seq, panic := some p }, s.tasks⟩

/-- The operations of `run` after its loop. -/
def finish (γ : Shared) : Option Shared :=
  match γ.main with
  | .wait => if γ.wg = 0 then some { γ with main := .close } else none
  | .close =>
    match γ.results.close with
    | .ok results => some { γ with results, main := .done }
    | .error p => some { γ with panic := some p }
  | .done => if γ.collector = .ended then some { γ with main := .returned } else none
  | _ => none

/-- The goroutine that collects the samples. -/
def collect (γ : Shared) : Option Shared :=
  match γ.collector with
  | .ranging =>
    match γ.results.recv with
    | some (some s, results) => some { γ with results, collected := γ.collected ++ [s] }
    | some (none, _) => some { γ with collector := .closing }
    | none => none
  | .closing => some { γ with collector := .ended }
  | .ended => none

inductive Ev
  | tick (j : ℕ) (now : Time)
  | finish
  | collect
  | dispatch (i : ℕ) (a : Act)
  deriving DecidableEq, Repr

/-- One operation of one goroutine.  A panic ends the program. -/
def step (cfg : RunConfig) (conns : ℕ) (start : Time) (s : Sys) (e : Ev) : Option Sys :=
  if s.shared.panic.isSome then none
  else
    match e with
    | .tick j now =>
      if s.shared.main = .ticks ∧ s.shared.last < j ∧ due cfg start j ≤ now then some (receive cfg conns start s j now)
      else none
    | .finish => (finish s.shared).map fun γ => ⟨γ, s.tasks⟩
    | .collect => (collect s.shared).map fun γ => ⟨γ, s.tasks⟩
    | .dispatch i a => runLocal act s i a

/-! ## What a step can do -/

inductive Acted (γ : Shared) (d : Dispatch) : Act → Shared → Dispatch → Prop
  | acquire {sem : Chan Unit} : d.pc = .acquire → γ.sem.send () = some (.ok sem) →
      Acted γ d .sync { γ with sem } { d with pc := .start }
  | acquirePanics {p : GoPanic} : γ.sem.send () = some (.error p) → Acted γ d .sync { γ with panic := some p } d
  | start {t : Time} : d.pc = .start → Acted γ d (.now t) γ { d with pc := .openStream t }
  | opened {a t : Time} : d.pc = .openStream a → Acted γ d (.returns none t) γ { d with pc := .writeFrame a }
  | written {a t : Time} : d.pc = .writeFrame a → Acted γ d (.returns none t) γ { d with pc := .readFrame a }
  | sampled {a t : Time} {err : Option String} : d.pc = .openStream a ∨ d.pc = .writeFrame a ∨ d.pc = .readFrame a →
      Acted γ d (.returns err t) γ { d with pc := .send (d.sample a t err) }
  | send {s : Sample} {results : Chan Sample} : d.pc = .send s → γ.results.send s = some (.ok results) →
      Acted γ d .sync { γ with results } { d with pc := .release }
  | sendPanics {s : Sample} {p : GoPanic} : d.pc = .send s → γ.results.send s = some (.error p) →
      Acted γ d .sync { γ with panic := some p } d
  | release {x : Option Unit} {sem : Chan Unit} : d.pc = .release → γ.sem.recv = some (x, sem) →
      Acted γ d .sync { γ with sem } { d with pc := .finish }
  | finish : d.pc = .finish → 0 ≤ γ.wg - 1 → Acted γ d .sync { γ with wg := γ.wg - 1 } { d with pc := .ended }
  | finishPanics : d.pc = .finish → γ.wg - 1 < 0 → Acted γ d .sync { γ with panic := some .negativeCounter } d

/-- **Inversion of `act`.** -/
theorem acted_of_act {γ γ' : Shared} {d d' : Dispatch} {a : Act} (h : act γ d a = some (γ', d')) : Acted γ d a γ' d' := by
  unfold act at h
  split at h
  case h_1 hpc =>
    split at h <;> simp only [Option.some.injEq, Prod.mk.injEq, reduceCtorEq] at h <;> obtain ⟨rfl, rfl⟩ := h
    · exact .acquire hpc ‹_›
    · exact .acquirePanics ‹_›
  case h_8 s hpc =>
    split at h <;> simp only [Option.some.injEq, Prod.mk.injEq, reduceCtorEq] at h <;> obtain ⟨rfl, rfl⟩ := h
    · exact .send hpc ‹_›
    · exact .sendPanics hpc ‹_›
  case h_9 hpc =>
    obtain ⟨⟨x, sem⟩, hrecv, heq⟩ := Option.map_eq_some_iff.1 h
    obtain ⟨rfl, rfl⟩ := Prod.mk.inj heq
    exact .release hpc hrecv
  case h_10 hpc =>
    split_ifs at h with hneg <;> simp only [Option.some.injEq, Prod.mk.injEq] at h <;> obtain ⟨rfl, rfl⟩ := h
    · exact .finishPanics hpc hneg
    · exact .finish hpc (by omega)
  case h_11 => cases h
  all_goals
    rename_i hpc
    simp only [Option.some.injEq, Prod.mk.injEq] at h
    obtain ⟨rfl, rfl⟩ := h
  case h_2 => exact .start hpc
  case h_3 => exact .opened hpc
  case h_4 => exact .sampled (.inl hpc)
  case h_5 => exact .written hpc
  case h_6 => exact .sampled (.inr (.inl hpc))
  case h_7 => exact .sampled (.inr (.inr hpc))

inductive Stepped (cfg : RunConfig) (conns : ℕ) (start : Time) (s : Sys) : Ev → Sys → Prop
  | late {j : ℕ} {now : Time} : s.shared.main = .ticks → s.shared.last < j → deadline cfg start < now →
      Stepped cfg conns start s (.tick j now) ⟨{ s.shared with main := .wait, last := j }, s.tasks⟩
  | go {j conn : ℕ} {now : Time} : s.shared.main = .ticks → s.shared.last < j → due cfg start j ≤ deadline cfg start →
      now ≤ deadline cfg start → connOf conns (s.shared.seq + 1) = .ok conn →
      Stepped cfg conns start s (.tick j now)
        ⟨{ s.shared with last := j, seq := s.shared.seq + 1, wg := s.shared.wg + 1 },
          s.tasks ++ [.new j conn (s.shared.seq + 1) (start + ((s.shared.seq + 1) * cfg.interval).toInt)]⟩
  | goPanics {j : ℕ} {now : Time} {p : GoPanic} : s.shared.main = .ticks → s.shared.last < j →
      due cfg start j ≤ deadline cfg start → now ≤ deadline cfg start → connOf conns (s.shared.seq + 1) = .error p →
      Stepped cfg conns start s (.tick j now)
        ⟨{ s.shared with last := j, seq := s.shared.seq + 1, panic := some p }, s.tasks⟩
  | waited : s.shared.main = .wait → s.shared.wg = 0 →
      Stepped cfg conns start s .finish ⟨{ s.shared with main := .close }, s.tasks⟩
  | closed {results : Chan Sample} : s.shared.main = .close → s.shared.results.close = .ok results →
      Stepped cfg conns start s .finish ⟨{ s.shared with results, main := .done }, s.tasks⟩
  | closePanics {p : GoPanic} : s.shared.main = .close → s.shared.results.close = .error p →
      Stepped cfg conns start s .finish ⟨{ s.shared with panic := some p }, s.tasks⟩
  | returned : s.shared.main = .done → s.shared.collector = .ended →
      Stepped cfg conns start s .finish ⟨{ s.shared with main := .returned }, s.tasks⟩
  | collected {x : Sample} {results : Chan Sample} : s.shared.collector = .ranging →
      s.shared.results.recv = some (some x, results) →
      Stepped cfg conns start s .collect ⟨{ s.shared with results, collected := s.shared.collected ++ [x] }, s.tasks⟩
  | drained {results : Chan Sample} : s.shared.collector = .ranging → s.shared.results.recv = some (none, results) →
      Stepped cfg conns start s .collect ⟨{ s.shared with collector := .closing }, s.tasks⟩
  | ended : s.shared.collector = .closing →
      Stepped cfg conns start s .collect ⟨{ s.shared with collector := .ended }, s.tasks⟩
  | dispatch {i : ℕ} {a : Act} {d d' : Dispatch} {γ : Shared} : s.tasks[i]? = some d → Acted s.shared d a γ d' →
      Stepped cfg conns start s (.dispatch i a) ⟨γ, s.tasks.set i d'⟩

/-- **Inversion of `step`.** -/
theorem stepped_of_step {cfg : RunConfig} {conns : ℕ} {start : Time} {s t : Sys} {e : Ev}
    (h : step cfg conns start s e = some t) : s.shared.panic = none ∧ Stepped cfg conns start s e t := by
  unfold step at h
  split_ifs at h with hpanic
  refine ⟨by simpa using hpanic, ?_⟩
  cases e with
  | tick j now =>
    simp only at h
    split_ifs at h with hguard
    obtain ⟨hmain, hlast, hdue⟩ := hguard
    obtain rfl := Option.some.inj h
    unfold receive
    split_ifs with hlate
    · exact .late hmain hlast hlate
    · have hnow : now ≤ deadline cfg start := not_lt.1 hlate
      simp only
      split
      · exact .go hmain hlast (hdue.trans hnow) hnow ‹_›
      · exact .goPanics hmain hlast (hdue.trans hnow) hnow ‹_›
  | finish =>
    obtain ⟨γ, hfinish, rfl⟩ := Option.map_eq_some_iff.1 h
    unfold finish at hfinish
    split at hfinish
    · split_ifs at hfinish with hwg
      obtain rfl := Option.some.inj hfinish
      exact .waited ‹_› hwg
    · split at hfinish <;> obtain rfl := Option.some.inj hfinish
      · exact .closed ‹_› ‹_›
      · exact .closePanics ‹_› ‹_›
    · split_ifs at hfinish with hended
      obtain rfl := Option.some.inj hfinish
      exact .returned ‹_› hended
    · cases hfinish
  | collect =>
    obtain ⟨γ, hcollect, rfl⟩ := Option.map_eq_some_iff.1 h
    unfold collect at hcollect
    split at hcollect
    · split at hcollect
      · obtain rfl := Option.some.inj hcollect
        exact .collected ‹_› ‹_›
      · obtain rfl := Option.some.inj hcollect
        exact .drained ‹_› ‹_›
      · cases hcollect
    · obtain rfl := Option.some.inj hcollect
      exact .ended ‹_›
    · cases hcollect
  | dispatch i a =>
    obtain ⟨d, γ, d', hi, ha, rfl⟩ := runLocal_eq_some h
    exact .dispatch hi (acted_of_act ha)

end ServiceProxy.Bench
