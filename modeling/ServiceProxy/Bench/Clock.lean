import ServiceProxy.Bench.Drift

/-!
# The latencies of a run, measured with one clock

The goroutines read one monotonic clock, which goes on between their operations and never goes back.

* `timedStep` — the scheduler with this clock: what an operation reads is what the clock shows;
* `Clocked` — the invariant: a dispatch is intended before it starts, and starts before its sample is completed;
* `measured_run` — so the report of every run is consistent: no latency is negative, none is longer than the run, and the
  corrected ones are not below the service times.
-/

namespace ServiceProxy.Bench

open ServiceProxy.Lib

/-! ## The clock -/

/-- The goroutines, and what the clock shows. -/
structure Timed where
  sys : Sys
  clock : Time
  deriving DecidableEq

/-- Time passes until the clock shows `t`, or a goroutine takes an operation. -/
inductive TimedEv
  | wait (t : Time)
  | op (e : Ev)
  deriving DecidableEq, Repr

/-- What an operation has read of the clock.  A tick was sent before it is received. -/
def Ev.reads (clock : Time) : Ev → Prop
  | .tick _ now => now ≤ clock
  | .dispatch _ (.now t) | .dispatch _ (.returns _ t) => t = clock
  | _ => True

instance (clock : Time) (e : Ev) : Decidable (e.reads clock) := by
  unfold Ev.reads
  split <;> infer_instance

def timedStep (cfg : RunConfig) (conns : ℕ) (start : Time) (s : Timed) : TimedEv → Option Timed
  | .wait t => if s.clock ≤ t then some { s with clock := t } else none
  | .op e =>
    if e.reads s.clock then (step cfg conns start s.sys e).map fun sys => { s with sys }
    else none

def TimedEv.op? : TimedEv → Option Ev
  | .wait _ => none
  | .op e => some e

section Step

variable {cfg : RunConfig} {conns : ℕ} {start t : Time} {s u : Timed} {e : Ev}

theorem timedStep_wait (h : timedStep cfg conns start s (.wait t) = some u) : s.clock ≤ t ∧ u = { s with clock := t } := by
  simp only [timedStep] at h
  split_ifs at h with hle
  exact ⟨hle, (Option.some.inj h).symm⟩

theorem timedStep_op (h : timedStep cfg conns start s (.op e) = some u) :
    e.reads s.clock ∧ step cfg conns start s.sys e = some u.sys ∧ u.clock = s.clock := by
  simp only [timedStep] at h
  split_ifs at h with hreads
  obtain ⟨sys, hstep, rfl⟩ := Option.map_eq_some_iff.1 h
  exact ⟨hreads, hstep, rfl⟩

/-- **Without its clock, a run is a run of the scheduler.** -/
theorem run_of_timed {P : Timed → TimedEv → Prop} {es : List TimedEv} (h : Run (timedStep cfg conns start) P s es u) :
    Run (step cfg conns start) Any s.sys (es.filterMap TimedEv.op?) u.sys := by
  refine h.project Timed.sys TimedEv.op? fun v e w hs => ?_
  cases e with
  | wait t =>
    obtain ⟨-, rfl⟩ := timedStep_wait hs
    rfl
  | op e => exact (timedStep_op hs).2.1

end Step

/-! ## The times of a run -/

/-- The times of a sample are in order, and lie between the start of the run and now. -/
structure Sample.Ordered (start clock : Time) (x : Sample) : Prop where
  start_le : start ≤ x.intendedSend
  intended_le : x.intendedSend ≤ x.actualSend
  actual_le : x.actualSend ≤ x.completed
  completed_le : x.completed ≤ clock

/-- So are the times that a dispatch has read. -/
def Dispatch.Ordered (start clock : Time) (d : Dispatch) : Prop :=
  start ≤ d.intended ∧ d.intended ≤ clock ∧
    match d.pc with
    | .openStream a | .writeFrame a | .readFrame a => d.intended ≤ a ∧ a ≤ clock
    | .send x => x.Ordered start clock
    | _ => True

/-- **The invariant.** -/
structure Clocked (start : Time) (s : Timed) : Prop where
  started : start ≤ s.clock
  dispatches : ∀ d ∈ s.sys.tasks, d.Ordered start s.clock
  sent : ∀ x ∈ s.sys.shared.sent, x.Ordered start s.clock

section Clocked

variable {limit conns j : ℕ} {cfg : RunConfig} {start clock t : Time} {s u : Timed} {s₀ : Sys} {e : Ev} {es : List Ev}
  {γ γ' : Shared} {d d' : Dispatch} {a : Act} {x : Sample}

theorem Sample.Ordered.later (h : x.Ordered start clock) (hle : clock ≤ t) : x.Ordered start t :=
  { h with completed_le := h.completed_le.trans hle }

theorem Dispatch.Ordered.later (h : d.Ordered start clock) (hle : clock ≤ t) : d.Ordered start t := by
  obtain ⟨hstart, hintended, hpc⟩ := h
  refine ⟨hstart, hintended.trans hle, ?_⟩
  split at hpc
  case h_4 => exact hpc.later hle
  case h_5 => trivial
  all_goals exact ⟨hpc.1, hpc.2.trans hle⟩

theorem Clocked.wait (h : Clocked start s) (hle : s.clock ≤ t) : Clocked start { s with clock := t } where
  started := h.started.trans hle
  dispatches := fun d hd => (h.dispatches d hd).later hle
  sent := fun x hx => (h.sent x hx).later hle

theorem Paced.intended_le (hinterval : 0 < cfg.interval) (h : Paced cfg start es s.sys) (hpanic : s.sys.shared.panic = none)
    (hlast : s.sys.shared.last < j) (hdue : due cfg start j ≤ deadline cfg start) :
    start ≤ start + ((s.sys.shared.seq + 1) * cfg.interval).toInt ∧
      start + ((s.sys.shared.seq + 1) * cfg.interval).toInt ≤ due cfg start j := by
  have hcount := h.count
  have hseq := h.seq hpanic
  have hj := lt_of_due hinterval hdue
  have hpos := toInt_pos hinterval
  have hsucc : (s.sys.shared.seq + 1).toInt = ((s.sys.tasks.length + 1 : ℕ) : ℤ) := by
    rw [toInt_succ] <;> omega
  have hle : ((s.sys.tasks.length + 1 : ℕ) : ℤ) ≤ j := by omega
  rw [toInt_mul_interval hinterval hsucc (by omega) hdue, due]
  refine ⟨le_add_of_nonneg_right (by positivity), ?_⟩
  gcongr

theorem due_le_now {now : Time} {s t : Sys} (h : step cfg conns start s (.tick j now) = some t) : due cfg start j ≤ now := by
  unfold step at h
  split_ifs at h with hpanic
  simp only at h
  split_ifs at h with hguard
  exact hguard.2.2

theorem Dispatch.Ordered.act {i : ℕ} (h : d.Ordered start clock) (ha : Acted γ d a γ' d')
    (hreads : (Ev.dispatch i a).reads clock) : d'.Ordered start clock := by
  obtain ⟨hstart, hintended, hpc⟩ := h
  cases ha with
  | start =>
    obtain rfl : _ = clock := hreads
    exact ⟨hstart, hintended, hintended, le_rfl⟩
  | opened hplace | written hplace =>
    rw [hplace] at hpc
    exact ⟨hstart, hintended, hpc⟩
  | sampled hplace =>
    obtain rfl : _ = clock := hreads
    refine ⟨hstart, hintended, hstart, ?_, ?_, le_rfl⟩ <;>
      rcases hplace with hplace | hplace | hplace <;> rw [hplace] at hpc
    all_goals first | exact hpc.1 | exact hpc.2
  | acquirePanics | sendPanics | finishPanics => exact ⟨hstart, hintended, hpc⟩
  | _ => exact ⟨hstart, hintended, trivial⟩

/-- **Every operation keeps the invariant.** -/
theorem clocked_step (hinterval : 0 < cfg.interval) (hpaced : Paced cfg start es s.sys) (h : Clocked start s)
    (hs : timedStep cfg conns start s (.op e) = some u) : Clocked start u := by
  obtain ⟨hreads, hstep, hclock⟩ := timedStep_op hs
  obtain ⟨hpanic, hstepped⟩ := stepped_of_step hstep
  obtain ⟨sys, clock⟩ := u
  obtain rfl : clock = s.clock := hclock
  refine ⟨h.started, ?_, ?_⟩
  · -- the dispatches
    cases hstepped with
    | go hmain hlast hdue hnow hconn =>
      obtain ⟨hlow, hhigh⟩ := hpaced.intended_le hinterval hpanic hlast hdue
      exact forall_mem_concat h.dispatches ⟨hlow, hhigh.trans ((due_le_now hstep).trans hreads), trivial⟩
    | @dispatch i a d d' γ hi ha =>
      exact forall_mem_set h.dispatches ((h.dispatches d (List.mem_of_getElem? hi)).act ha hreads) i
    | _ => exact h.dispatches
  · -- the samples
    intro x hx
    cases hstepped with
    | @dispatch i a d d' γ hi ha =>
      rcases sent_of_acted ha hx with hx | hpc
      · exact h.sent x hx
      · obtain ⟨-, -, hordered⟩ := h.dispatches d (List.mem_of_getElem? hi)
        rwa [hpc] at hordered
    | closed hmain hclose =>
      obtain ⟨-, -, hbuf, -⟩ := close_eq_ok.1 hclose
      simp only [Shared.sent, hbuf] at hx
      exact h.sent x hx
    | collected hcollector hrecv =>
      obtain ⟨hbuf, -⟩ := recv_eq_some.1 hrecv
      refine h.sent x ?_
      simp only [Shared.sent, List.append_assoc, List.singleton_append] at hx
      rwa [Shared.sent, hbuf]
    | _ => exact h.sent x hx

/-- **Every run keeps the invariant.** -/
theorem clocked_run {es : List TimedEv} (hlaunch : launch limit cfg = .ok s₀)
    (hrun : Run (timedStep cfg conns start) Any ⟨s₀, start⟩ es s) : Clocked start s := by
  obtain ⟨-, hinterval, sem, results, -, hresults, hnew⟩ := launch_eq_ok.1 hlaunch
  obtain ⟨-, -, rfl⟩ := make_eq_ok.1 hresults
  induction hrun with
  | nil =>
    subst hnew
    exact ⟨le_rfl, nofun, nofun⟩
  | @snoc es s u e hrun _ hs ih =>
    cases e with
    | wait t =>
      obtain ⟨hle, rfl⟩ := timedStep_wait hs
      exact ih.wait hle
    | op e => exact clocked_step hinterval (paced_run hlaunch (run_of_timed hrun)) ih hs

end Clocked

/-! ## The report of a run -/

/-- **A report that is consistent with the clock**: no latency is negative or longer than the run, and the corrected statistics
are not below those of the service times. -/
structure Report.Measured (r : Report) : Prop where
  dominated : r.rawStats.Le r.correctedStats
  nonneg : 0 ≤ r.rawStats.min
  within : r.correctedStats.max ≤ r.wallClock

section Measured

variable {limit conns : ℕ} {cfg : RunConfig} {start clock lo hi : Time} {s : Timed} {s₀ : Sys} {es : List TimedEv}
  {samples : List Sample}

theorem sub_nonneg_of_le {t u : ℤ} (h : u ≤ t) : 0 ≤ Time.sub t u := by
  unfold Time.sub
  omega

theorem sub_le_sub_of_mem {t u lo hi : ℤ} (hlo : lo ≤ u) (hhi : t ≤ hi) : Time.sub t u ≤ Time.sub hi lo := by
  unfold Time.sub
  omega

/-- **The report of samples whose times are in order.** -/
theorem measured_of_ordered (h : ∀ x ∈ samples, x.Ordered start clock) (hstart : start ≤ clock) (hlo : lo ≤ start)
    (hhi : clock ≤ hi) : ∃ r, computeReport samples (Time.sub hi lo) = some r ∧ r.Measured := by
  obtain ⟨correctedStats, hcorrected, hcorrectedRanks⟩ :=
    computeLatencyStats_isSome ((succeeded samples).map Sample.corrected)
  obtain ⟨rawStats, hraw, hrawRanks⟩ := computeLatencyStats_isSome ((succeeded samples).map Sample.raw)
  have hreport := computeReport_eq samples (Time.sub hi lo)
  rw [hcorrected, Option.bind_some, hraw, Option.map_some] at hreport
  refine ⟨_, hreport, ?_⟩
  cases hsucceeded : succeeded samples with
  | nil =>
    -- both series are empty
    rw [hsucceeded] at hcorrected hraw
    obtain rfl := Option.some.inj hcorrected
    obtain rfl := Option.some.inj hraw
    exact ⟨⟨le_rfl, le_rfl, le_rfl, le_rfl, le_rfl⟩, le_rfl, sub_nonneg_of_le (hlo.trans (hstart.trans hhi))⟩
  | cons y rest =>
    have hne : ∀ f : Sample → ℤ, (succeeded samples).map f ≠ [] := fun f hnil => by
      rw [hsucceeded] at hnil
      cases hnil
    have hmem : ∀ x ∈ succeeded samples, x.Ordered start clock := fun x hx => h x (List.mem_filter.1 hx).1
    have hcorrectedRanks := hcorrectedRanks (hne _)
    have hrawRanks := hrawRanks (hne _)
    refine ⟨hrawRanks.le (raw_dominated fun x hx _ => (h x hx).intended_le) hcorrectedRanks, ?_, ?_⟩
    · obtain ⟨x, hx, hmin⟩ := List.mem_map.1 (mem_of_orderStat hrawRanks.min)
      rw [← hmin]
      exact sub_nonneg_of_le (hmem x hx).actual_le
    · obtain ⟨x, hx, hmax⟩ := List.mem_map.1 (mem_of_orderStat hcorrectedRanks.max)
      rw [← hmax]
      exact sub_le_sub_of_mem (hlo.trans (hmem x hx).start_le) ((hmem x hx).completed_le.trans hhi)

/-- **The report of every run is consistent with the clock.**  `main` reads the clock at `lo` before the run, and at `hi` after
it. -/
theorem measured_run (hlaunch : launch limit cfg = .ok s₀) (hrun : Run (timedStep cfg conns start) Any ⟨s₀, start⟩ es s)
    (hlo : lo ≤ start) (hhi : s.clock ≤ hi) :
    ∃ r, computeReport s.sys.shared.collected (Time.sub hi lo) = some r ∧ r.Measured := by
  have hclocked := clocked_run hlaunch hrun
  exact measured_of_ordered (fun x hx => hclocked.sent x (List.mem_append_left _ hx)) hclocked.started hlo hhi

/-- A run of two dispatches, the second of which waits for its place until the first is answered. -/
def queued : List TimedEv :=
  [.wait 100000000, .op (.tick 1 100000000), .op (.dispatch 0 .sync), .op (.dispatch 0 (.now 100000000)),
    .wait 200000000, .op (.tick 2 200000000), .op (.dispatch 0 (.returns none 200000000)),
    .op (.dispatch 0 (.returns none 200000000)), .wait 350000000, .op (.dispatch 0 (.returns none 350000000)),
    .op (.dispatch 0 .sync), .op (.dispatch 0 .sync), .op (.dispatch 1 .sync), .op (.dispatch 1 (.now 350000000)),
    .op (.dispatch 1 (.returns none 350000000)), .op (.dispatch 1 (.returns none 350000000)), .wait 360000000,
    .op (.dispatch 1 (.returns none 360000000)), .op (.dispatch 1 .sync), .op .collect, .op .collect]

/-- The second request takes 10 ms, and 160 ms from the time at which it was to be sent. -/
theorem measured_queued :
    ∃ s, Run (timedStep oneAtATime 1 0) Any ⟨launched, 0⟩ queued s ∧
      s.sys.shared.collected.map (fun x => (x.raw, x.corrected)) = [(250000000, 250000000), (10000000, 160000000)] ∧
      ∃ r, computeReport s.sys.shared.collected (Time.sub 400000000 0) = some r ∧ r.Measured := by
  have hexec : (exec (timedStep oneAtATime 1 0) Any ⟨launched, 0⟩ queued).map
      (fun s => (s.clock, s.sys.shared.collected.map fun x => (x.raw, x.corrected))) =
        some (360000000, [(250000000, 250000000), (10000000, 160000000)]) := by
    decide
  obtain ⟨s, hs, hlast⟩ := Option.map_eq_some_iff.1 hexec
  obtain ⟨hclock, hseries⟩ := Prod.mk.inj hlast
  have hlaunch : launch 1000 oneAtATime = .ok launched := rfl
  refine ⟨s, Run.of_exec hs, hseries, measured_run hlaunch (Run.of_exec hs) le_rfl ?_⟩
  rw [hclock]
  decide

end Measured

end ServiceProxy.Bench
