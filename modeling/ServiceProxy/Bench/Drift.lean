import ServiceProxy.Bench.Samples

/-!
# Intended send times and the ticks that are dropped

`run` counts the ticks it receives, and takes `start + seq * interval` for the intended send time of the dispatch `seq`.

* `Paced` — the invariant: the dispatches are the first of the ticks that were received, and are numbered by their place;
* `intended_eq` — the intended send time is early by an interval for every tick that was dropped before;
* `onTime_iff` — so the dispatch carries the time at which its tick was due if and only if none was.
-/

namespace ServiceProxy.Bench

open ServiceProxy.Lib

def receivedTicks (es : List Ev) : List ℕ :=
  es.filterMap fun
    | .tick j _ => some j
    | _ => none

/-- How many ticks the ticker has dropped before the tick `j`. -/
def dropped (es : List Ev) (j : ℕ) : ℕ := {k ∈ Finset.Icc 1 j | k ∉ receivedTicks es}.card

def Dispatch.label (d : Dispatch) : Int64 × Time := (d.seq, d.intended)

def Sample.label (x : Sample) : Int64 × Time := (x.seq, x.intendedSend)

/-- The number `n` and the time that the code computes from it. -/
def labelOf (cfg : RunConfig) (start : Time) (n : ℕ) : ℤ × Time := (n + 1, start + (n + 1) * cfg.interval.toInt)

/-- **The invariant.** -/
structure Paced (cfg : RunConfig) (start : Time) (es : List Ev) (s : Sys) : Prop where
  increasing : (receivedTicks es).Pairwise (· < ·)
  bounds : ∀ j ∈ receivedTicks es, 1 ≤ j ∧ j ≤ s.shared.last
  ticks : s.tasks.map Dispatch.tick <+: receivedTicks es
  all : s.shared.main = .ticks → s.shared.panic = none → s.tasks.map Dispatch.tick = receivedTicks es
  count : s.tasks.length ≤ s.shared.last
  seq : s.shared.panic = none → s.shared.seq.toInt = s.tasks.length
  labels : s.tasks.map (fun d => (d.seq.toInt, d.intended)) = (List.range s.tasks.length).map (labelOf cfg start)
  sent : ∀ x ∈ s.shared.sent, x.label ∈ s.tasks.map Dispatch.label
  pending : ∀ d ∈ s.tasks, ∀ x, d.pc = .send x → x.label = d.label

section Paced

variable {limit conns i j : ℕ} {cfg : RunConfig} {start now : Time} {s s₀ t : Sys} {e : Ev} {es : List Ev} {γ : Shared}
  {d d' : Dispatch} {a : Act}

@[simp] theorem receivedTicks_append (es fs : List Ev) : receivedTicks (es ++ fs) = receivedTicks es ++ receivedTicks fs :=
  List.filterMap_append

@[simp] theorem receivedTicks_tick (j : ℕ) (now : Time) : receivedTicks [.tick j now] = [j] := rfl

theorem toInt_mul_interval {x : Int64} {n : ℕ} (hinterval : 0 < cfg.interval) (hx : x.toInt = n) (hn : n ≤ j)
    (hdue : due cfg start j ≤ deadline cfg start) : (x * cfg.interval).toInt = n * cfg.interval.toInt := by
  have hpos := toInt_pos hinterval
  have hduration := cfg.duration.toInt_lt
  have hle := due_le_iff.1 hdue
  have hmul : (n : ℤ) * cfg.interval.toInt ≤ j * cfg.interval.toInt := by
    gcongr
  have hnonneg : 0 ≤ (n : ℤ) * cfg.interval.toInt := by positivity
  rw [Int64.toInt_mul, hx, Int.bmod_eq_of_le] <;> omega

theorem Paced.grow (h : Paced cfg start es s) (hlast : s.shared.last < j) :
    (receivedTicks (es ++ [.tick j now])).Pairwise (· < ·) ∧
      ∀ k ∈ receivedTicks (es ++ [.tick j now]), 1 ≤ k ∧ k ≤ j := by
  rw [receivedTicks_append, receivedTicks_tick]
  constructor
  · refine List.pairwise_append.2 ⟨h.increasing, List.pairwise_singleton _ _, fun k hk l hl => ?_⟩
    have := (h.bounds k hk).2
    rw [List.mem_singleton.1 hl]
    omega
  · refine forall_mem_concat (fun k hk => ?_) (by omega)
    have := h.bounds k hk
    omega

theorem Paced.received (h : Paced cfg start es s) (hlast : s.shared.last < j) (hγ : γ.last = j)
    (hsent : γ.sent = s.shared.sent) (hall : γ.main = .ticks → γ.panic = none → False)
    (hseq : γ.panic = none → γ.seq = s.shared.seq ∧ s.shared.panic = none) :
    Paced cfg start (es ++ [.tick j now]) ⟨γ, s.tasks⟩ where
  increasing := (h.grow hlast).1
  bounds := by
    simp only [hγ]
    exact (h.grow hlast).2
  ticks := by
    rw [receivedTicks_append]
    exact h.ticks.trans (List.prefix_append _ _)
  all := fun hmain hpanic => (hall hmain hpanic).elim
  count := by
    have := h.count
    simp only [hγ]
    omega
  seq := fun hpanic => by
    simp only [(hseq hpanic).1]
    exact h.seq (hseq hpanic).2
  labels := h.labels
  sent := by
    simp only [hsent]
    exact h.sent
  pending := h.pending

theorem Paced.go {conn : ℕ} (hinterval : 0 < cfg.interval) (h : Paced cfg start es s) (hpanic : s.shared.panic = none)
    (hmain : s.shared.main = .ticks) (hlast : s.shared.last < j) (hdue : due cfg start j ≤ deadline cfg start) :
    Paced cfg start (es ++ [.tick j now])
      ⟨{ s.shared with last := j, seq := s.shared.seq + 1, wg := s.shared.wg + 1 },
        s.tasks ++ [.new j conn (s.shared.seq + 1) (start + ((s.shared.seq + 1) * cfg.interval).toInt)]⟩ := by
  have hcount := h.count
  have hseq := h.seq hpanic
  have hj := lt_of_due hinterval hdue
  have hsucc : (s.shared.seq + 1).toInt = ((s.tasks.length + 1 : ℕ) : ℤ) := by
    rw [toInt_succ] <;> omega
  have hintended := toInt_mul_interval hinterval hsucc (j := j) (by omega) hdue
  have hticks : (s.tasks ++ [Dispatch.new j conn (s.shared.seq + 1)
      (start + ((s.shared.seq + 1) * cfg.interval).toInt)]).map Dispatch.tick = receivedTicks (es ++ [.tick j now]) := by
    rw [List.map_append, h.all hmain hpanic, receivedTicks_append]
    rfl
  constructor
  case increasing => exact (h.grow hlast).1
  case bounds => exact (h.grow hlast).2
  case ticks =>
    rw [← hticks]
  case all => exact fun _ _ => hticks
  case count =>
    simp only [List.length_append, List.length_singleton]
    omega
  case seq =>
    intro _
    simpa only [List.length_append, List.length_singleton] using hsucc
  case labels =>
    simp only [List.map_append, h.labels, List.length_append, List.length_singleton, List.range_succ, List.map_cons,
      List.map_nil, Dispatch.new, hsucc, hintended, labelOf]
    push_cast
    rfl
  case sent =>
    intro x hx
    rw [List.map_append]
    exact List.mem_append_left _ (h.sent x hx)
  case pending =>
    refine forall_mem_concat h.pending fun x hx => ?_
    cases hx

theorem Paced.quiet (h : Paced cfg start es s) (hpanic : s.shared.panic = none) (he : receivedTicks [e] = [])
    (hmain : t.shared.main = .ticks → s.shared.main = .ticks) (hlast : t.shared.last = s.shared.last)
    (hseq : t.shared.seq = s.shared.seq) (hticks : t.tasks.map Dispatch.tick = s.tasks.map Dispatch.tick)
    (hlabels : t.tasks.map Dispatch.label = s.tasks.map Dispatch.label)
    (hsent : ∀ x ∈ t.shared.sent, x.label ∈ s.tasks.map Dispatch.label)
    (hpending : ∀ d ∈ t.tasks, ∀ x, d.pc = .send x → x.label = d.label) : Paced cfg start (es ++ [e]) t := by
  have hlength : t.tasks.length = s.tasks.length := by simpa using congrArg List.length hticks
  have hsame : t.tasks.map (fun d => (d.seq.toInt, d.intended)) = s.tasks.map fun d => (d.seq.toInt, d.intended) := by
    have := congrArg (List.map fun l : Int64 × Time => (l.1.toInt, l.2)) hlabels
    rwa [List.map_map, List.map_map] at this
  have hreceived : receivedTicks (es ++ [e]) = receivedTicks es := by rw [receivedTicks_append, he, List.append_nil]
  constructor
  case increasing => rw [hreceived]; exact h.increasing
  case bounds => rw [hreceived, hlast]; exact h.bounds
  case ticks => rw [hreceived, hticks]; exact h.ticks
  case all =>
    intro hloop _
    rw [hreceived, hticks]
    exact h.all (hmain hloop) hpanic
  case count => rw [hlength, hlast]; exact h.count
  case seq =>
    intro _
    rw [hseq, hlength]
    exact h.seq hpanic
  case labels => rw [hsame, hlength]; exact h.labels
  case sent => rw [hlabels]; exact hsent
  case pending => exact hpending

theorem sent_of_acted {γ' : Shared} (ha : Acted γ d a γ' d') {x : Sample} (hx : x ∈ γ'.sent) :
    x ∈ γ.sent ∨ d.pc = .send x := by
  cases ha with
  | @send y results hpc hsend =>
    obtain ⟨-, -, -, hbuf, -⟩ := send_eq_ok.1 hsend
    simp only [Shared.sent, hbuf, ← List.append_assoc] at hx
    rcases List.mem_append.1 hx with hx | hx
    · exact .inl hx
    · rw [List.mem_singleton.1 hx]
      exact .inr hpc
  | _ => exact .inl hx

theorem pending_of_acted {γ' : Shared} (ha : Acted γ d a γ' d') (h : ∀ x, d.pc = .send x → x.label = d.label) (x : Sample)
    (hx : d'.pc = .send x) : x.label = d'.label := by
  cases ha with
  | sampled hpc =>
    obtain rfl := Pc.send.inj hx
    rfl
  | acquirePanics | sendPanics | finishPanics => exact h x hx
  | _ => cases hx

/-- **Every operation keeps the invariant.** -/
theorem paced_step (hinterval : 0 < cfg.interval) (h : Paced cfg start es s) (hs : step cfg conns start s e = some t) :
    Paced cfg start (es ++ [e]) t := by
  obtain ⟨hpanic, hstepped⟩ := stepped_of_step hs
  cases hstepped with
  | late hmain hlast hlate => exact h.received hlast rfl rfl nofun fun hnone => ⟨rfl, hnone⟩
  | go hmain hlast hdue hnow hconn => exact h.go hinterval hpanic hmain hlast hdue
  | goPanics hmain hlast hdue hnow hconn => exact h.received hlast rfl rfl nofun nofun
  | waited | returned => exact h.quiet hpanic rfl nofun rfl rfl rfl rfl h.sent h.pending
  | closePanics | drained | ended => exact h.quiet hpanic rfl id rfl rfl rfl rfl h.sent h.pending
  | closed hmain hclose =>
    obtain ⟨-, -, hbuf, -⟩ := close_eq_ok.1 hclose
    refine h.quiet hpanic rfl nofun rfl rfl rfl rfl (fun x hx => ?_) h.pending
    simp only [Shared.sent, hbuf] at hx
    exact h.sent x hx
  | collected hcollector hrecv =>
    obtain ⟨hbuf, -⟩ := recv_eq_some.1 hrecv
    refine h.quiet hpanic rfl id rfl rfl rfl rfl (fun x hx => h.sent x ?_) h.pending
    simp only [Shared.sent, List.append_assoc, List.singleton_append] at hx
    rwa [Shared.sent, hbuf]
  | @dispatch i a d d' γ hi ha =>
    obtain ⟨hseq, htick, hintended, hmain, hcount, hlast, -⟩ := ha.const
    have hmem := List.mem_of_getElem? hi
    have hlabel : d'.label = d.label := by rw [Dispatch.label, Dispatch.label, hseq, hintended]
    refine h.quiet hpanic rfl (fun hloop => hmain ▸ hloop) hlast hcount (map_set_of_eq hi _ htick)
      (map_set_of_eq hi _ hlabel) (fun x hx => ?_) (forall_mem_set h.pending (pending_of_acted ha (h.pending d hmem)) i)
    rcases sent_of_acted ha hx with hx | hpc
    · exact h.sent x hx
    · rw [h.pending d hmem x hpc]
      exact List.mem_map_of_mem hmem

/-- **Every run keeps the invariant.** -/
theorem paced_run (hlaunch : launch limit cfg = .ok s₀) (hrun : Run (step cfg conns start) Any s₀ es s) :
    Paced cfg start es s := by
  obtain ⟨-, hinterval, sem, results, -, hresults, rfl⟩ := launch_eq_ok.1 hlaunch
  obtain ⟨-, -, rfl⟩ := make_eq_ok.1 hresults
  induction hrun with
  | nil => exact ⟨.nil, nofun, List.prefix_rfl, fun _ _ => rfl, le_rfl, fun _ => rfl, rfl, nofun, nofun⟩
  | snoc _ _ hs ih => exact paced_step hinterval ih hs

end Paced

/-! ## The drift -/

/-- The dispatch, and the samples of it in `sent`, carry the time at which its tick was due. -/
structure Dispatch.OnTime (cfg : RunConfig) (start : Time) (sent : List Sample) (d : Dispatch) : Prop where
  intended : d.intended = due cfg start d.tick
  corrected : ∀ x ∈ sent, x.seq = d.seq → x.corrected = Time.sub x.completed (due cfg start d.tick)

section Drift

variable {limit conns : ℕ} {cfg : RunConfig} {start : Time} {s s₀ : Sys} {es : List Ev} {d : Dispatch}

theorem Paced.place (h : Paced cfg start es s) (hd : d ∈ s.tasks) :
    ∃ i : ℕ, (receivedTicks es)[i]? = some d.tick ∧ d.seq.toInt = i + 1 ∧
      d.intended = start + (i + 1) * cfg.interval.toInt := by
  obtain ⟨i, hi⟩ := List.mem_iff_getElem?.1 hd
  obtain ⟨hlt, -⟩ := List.getElem?_eq_some_iff.1 hi
  have hlabel := congrArg (fun l => l[i]?) h.labels
  simp only [List.getElem?_map, hi, List.getElem?_range hlt, Option.map_some, Option.some.injEq, labelOf,
    Prod.mk.injEq] at hlabel
  refine ⟨i, ?_, hlabel⟩
  obtain ⟨rest, hrest⟩ := h.ticks
  rw [← hrest, List.getElem?_append_left (by rwa [List.length_map]), List.getElem?_map, hi, Option.map_some]

/-- **How far the intended send time is off**: by an interval for every tick that has been dropped before. -/
theorem Paced.intended_eq (h : Paced cfg start es s) (hd : d ∈ s.tasks) :
    d.intended = due cfg start d.tick - dropped es d.tick * cfg.interval.toInt := by
  obtain ⟨i, hi, -, hintended⟩ := h.place hd
  have hcard := card_missing h.increasing (fun k hk => (h.bounds k hk).1) hi
  have htick : (d.tick : ℤ) = dropped es d.tick + (i + 1) := by
    rw [dropped]
    omega
  rw [hintended, due, htick]
  ring

theorem Paced.sample_intended (h : Paced cfg start es s) (hd : d ∈ s.tasks) {x : Sample} (hx : x ∈ s.shared.sent)
    (hseq : x.seq = d.seq) : x.intendedSend = d.intended := by
  obtain ⟨d', hd', hlabel⟩ := List.mem_map.1 (h.sent x hx)
  obtain ⟨hseq', hintended'⟩ := Prod.mk.inj hlabel
  obtain ⟨i, -, hi, hintended⟩ := h.place hd
  obtain ⟨i', -, hi', hother⟩ := h.place hd'
  have hplace : (i' : ℤ) = i := by
    rw [hseq', hseq, hi] at hi'
    omega
  rw [← hintended', hother, hplace, hintended]

/-- Nothing has been dropped before the tick `j`, which was received. -/
theorem dropped_eq_zero_iff {j : ℕ} (hj : j ∈ receivedTicks es) :
    dropped es j = 0 ↔ ∀ k, 1 ≤ k → k < j → k ∈ receivedTicks es := by
  rw [dropped, Finset.card_eq_zero, Finset.filter_eq_empty_iff]
  constructor
  · intro h k hk hkj
    exact not_not.1 (h (Finset.mem_Icc.2 ⟨hk, hkj.le⟩))
  · intro h k hk
    obtain ⟨hlow, hhigh⟩ := Finset.mem_Icc.1 hk
    rcases hhigh.lt_or_eq with hlt | rfl
    · exact not_not.2 (h k hlow hlt)
    · exact not_not.2 hj

/-- **When a request carries the time at which its tick was due**, in every run: if and only if the ticker has dropped no tick
before it. -/
theorem onTime_iff (hlaunch : launch limit cfg = .ok s₀) (hrun : Run (step cfg conns start) Any s₀ es s) (hd : d ∈ s.tasks) :
    d.OnTime cfg start s.shared.sent ↔ ∀ k, 1 ≤ k → k < d.tick → k ∈ receivedTicks es := by
  have hpaced := paced_run hlaunch hrun
  obtain ⟨-, hinterval, -⟩ := launch_eq_ok.1 hlaunch
  have hpos := toInt_pos hinterval
  obtain ⟨i, hi, -⟩ := hpaced.place hd
  rw [← dropped_eq_zero_iff (List.mem_of_getElem? hi)]
  have hintended := hpaced.intended_eq hd
  constructor
  · intro hontime
    have hzero : dropped es d.tick * cfg.interval.toInt = 0 := sub_eq_self.1 (hintended.symm.trans hontime.intended)
    rcases mul_eq_zero.1 hzero with hzero | hzero
    · exact_mod_cast hzero
    · omega
  · intro hzero
    have heq : d.intended = due cfg start d.tick := by
      rw [hintended, hzero]
      simp
    refine ⟨heq, fun x hx hseq => ?_⟩
    rw [Sample.corrected, hpaced.sample_intended hd hx hseq, heq]

end Drift

/-! ## Two runs -/

/-- No tick is dropped before the second request of `twoDispatches`. -/
theorem onTime_twoDispatches :
    ∃ s, Run (step oneAtATime 1 0) Any launched twoDispatches s ∧ s.shared.collected.length = 2 ∧
      ∃ d ∈ s.tasks, d.tick = 2 ∧ d.OnTime oneAtATime 0 s.shared.sent := by
  have hexec : (exec (step oneAtATime 1 0) Any launched twoDispatches).map
      (fun s => (s.shared.collected.length, s.tasks.map Dispatch.tick)) = some (2, [1, 2]) := by
    decide
  obtain ⟨s, hs, hlast⟩ := Option.map_eq_some_iff.1 hexec
  obtain ⟨hlength, hticks⟩ := Prod.mk.inj hlast
  have hrun := Run.of_exec hs
  obtain ⟨d, hd, htick⟩ := List.mem_map.1 (hticks ▸ (by decide) : 2 ∈ s.tasks.map Dispatch.tick)
  have hlaunch : launch 1000 oneAtATime = .ok launched := rfl
  refine ⟨s, hrun, hlength, d, hd, htick, (onTime_iff hlaunch hrun hd).2 fun k hlow hhigh => ?_⟩
  obtain rfl : k = 1 := by omega
  decide

/-- The tick at 200 ms is dropped, and the request of the tick at 300 ms is answered after 10 ms. -/
def droppedTick : List Ev :=
  [.tick 1 100000000, .tick 3 300000000, .dispatch 1 .sync, .dispatch 1 (.now 300000000), .dispatch 1 (.returns none 0),
    .dispatch 1 (.returns none 0), .dispatch 1 (.returns none 310000000), .dispatch 1 .sync]

/-- **The counter-example.**  The request of the tick at 300 ms carries 200 ms, and its corrected latency is 110 ms. -/
theorem droppedTick_not_onTime :
    ¬ ∀ (limit conns : ℕ) (cfg : RunConfig) (start : Time) (s₀ s : Sys) (es : List Ev), launch limit cfg = .ok s₀ →
      Run (step cfg conns start) Any s₀ es s → ∀ d ∈ s.tasks, d.OnTime cfg start s.shared.sent := by
  intro h
  have hexec : (exec (step oneAtATime 1 0) Any launched droppedTick).map
      (fun s => (s.tasks.map fun d => (d.tick, d.intended), s.shared.sent.map Sample.corrected)) =
        some ([(1, 100000000), (3, 200000000)], [110000000]) := by
    decide
  obtain ⟨s, hs, hlast⟩ := Option.map_eq_some_iff.1 hexec
  obtain ⟨hlabels, -⟩ := Prod.mk.inj hlast
  have hmem : (3, 200000000) ∈ s.tasks.map fun d => (d.tick, d.intended) := hlabels ▸ (by decide)
  obtain ⟨d, hd, heq⟩ := List.mem_map.1 hmem
  obtain ⟨htick, hintended⟩ := Prod.mk.inj heq
  have honTime := (h 1000 1 oneAtATime 0 launched s droppedTick rfl (Run.of_exec hs) d hd).intended
  rw [hintended, htick] at honTime
  exact absurd honTime (by decide)

end ServiceProxy.Bench
