import ServiceProxy.Upstream.PoolLedger

/-!
# Wake-ups

A `get` that finds the pool full parks in `notified().await` and relies on a later `notify_one`.  Who can still call it,
or look at the pool again?

* a request that *announces*: it will look at the idle list, or it will end in a `put`, hence in `notify_one`;
* a request at `getAdd` has seen an empty idle list; it becomes one that announces, or one that waits;
* a request that *waits* was refused and will park unless the permit is stored.

`Announced` is the invariant: as long as somebody waits, the permit is stored or somebody announces; and if something is
idle although somebody waits or is about to, this does not count the requests at `getAdd`.  Every step keeps it, except
two: a `fetch_add` refused while no slot is in use (`refuse`), and a failed dial, which gives its slot back and tells
nobody (`dialErr`).  `RefusedInUse` and `DialErrTold` exclude exactly these.
-/

namespace ServiceProxy.Upstream

open ServiceProxy.Lib

/-! ## Who waits, who announces -/

/-- The request was refused and will park unless the permit is stored. -/
def Pc.waits : Pc → ℕ
  | .getSub | .getNotified | .getParked => 1
  | _ => 0

def Pc.adds : Pc → ℕ
  | .getAdd => 1
  | _ => 0

/-- The request will look at the idle list, or call `notify_one`. -/
def Pc.announces : Pc → ℕ
  | .getLock | .getDial | .getWoken | .lent _ | .putLock _ | .putDrop _ | .putSub | .putNotify => 1
  | _ => 0

def Pc.inDial : Pc → ℕ
  | .getDial => 1
  | _ => 0

/-- The slots in use, without those of failed dials. -/
def inUse (s : Sys) : ℕ :=
  s.shared.idle.length + tally Pc.lends s.tasks + tally Pc.inDial s.tasks + tally Pc.closes s.tasks

/-- **The wake-up invariant.** -/
structure Announced (s : Sys) : Prop where
  idle : 0 < s.shared.idle.length → 0 < tally Pc.waits s.tasks + tally Pc.adds s.tasks →
    0 < s.shared.permit.toNat + tally Pc.announces s.tasks
  wait : 0 < tally Pc.waits s.tasks →
    0 < s.shared.permit.toNat + tally Pc.announces s.tasks + tally Pc.adds s.tasks

/-- A `fetch_add` is refused only while a slot is in use. -/
def RefusedInUse (s : Sys) : Ev → Prop
  | .run _ .fetchAdd => s.shared.outstanding < s.shared.maxSize ∨ 0 < inUse s
  | _ => True

/-- A dial fails only when nobody waits or is about to, or the permit is stored. -/
def DialErrTold (s : Sys) : Ev → Prop
  | .run _ .dialErr => tally Pc.waits s.tasks + tally Pc.adds s.tasks = 0 ∨ s.shared.permit = true
  | _ => True

variable {s t : Sys} {e : Ev}

/-- What a slot in use is worth: its request announces, or the connection is idle. -/
theorem inUse_le (s : Sys) : inUse s ≤ s.shared.idle.length + tally Pc.announces s.tasks := by
  have h : tally (fun pc => pc.lends + pc.inDial + pc.closes) s.tasks ≤ tally Pc.announces s.tasks := by
    refine tally_mono fun pc _ => ?_
    cases pc <;> simp [Pc.lends, Pc.conn?, Pc.inDial, Pc.closes, Pc.announces]
  rw [tally_add, tally_add] at h
  unfold inUse
  omega

/-! ## One step -/

theorem waits_set {ts : List Pc} {i : ℕ} {pc : Pc} (hi : ts[i]? = some pc) (pc' : Pc) :
    tally Pc.waits (ts.set i pc') + pc.waits = tally Pc.waits ts + pc'.waits ∧
    tally Pc.adds (ts.set i pc') + pc.adds = tally Pc.adds ts + pc'.adds ∧
    tally Pc.announces (ts.set i pc') + pc.announces = tally Pc.announces ts + pc'.announces :=
  ⟨tally_set _ hi _, tally_set _ hi _, tally_set _ hi _⟩

/-- After `notify_one` the permit is stored or a woken request will look again. -/
theorem announced_notified {w : Option ℕ} (hn : Notified s w t) : Announced t := by
  cases hn with
  | @wake w hw =>
    have h1 := (waits_set hw .getWoken).2.2
    simp only [Pc.announces] at h1
    refine ⟨fun _ _ => ?_, fun _ => ?_⟩ <;> dsimp only <;> omega
  | store => exact ⟨fun _ _ => by simp, fun _ => by simp⟩

theorem announced_act {i : ℕ} {a : Act} {pc pc' : Pc} {p : Pool} (h : Announced s) (hi : s.tasks[i]? = some pc)
    (ha : Acted s.shared pc a p pc') (hr : RefusedInUse s (.run i a)) (hd : DialErrTold s (.run i a)) :
    Announced ⟨p, s.tasks.set i pc'⟩ := by
  obtain ⟨hw, hg, hann⟩ := waits_set hi pc'
  have hle := le_tally Pc.adds hi
  have hle' := le_tally Pc.announces hi
  have huse := inUse_le s
  obtain ⟨hidle, hwait⟩ := h
  cases ha <;> simp only [Pc.waits, Pc.adds, Pc.announces] at hw hg hann hle hle'
  case pop c rest hpop =>
    rw [hpop, List.length_cons] at hidle
    refine ⟨fun _ h0 => ?_, fun h0 => ?_⟩ <;> dsimp only at h0 ⊢ <;> omega
  case empty hnil =>
    refine ⟨fun h0 _ => ?_, fun h0 => ?_⟩
    · simp only [hnil, List.length_nil, lt_irrefl] at h0
    · dsimp only at h0 ⊢
      omega
  case refuse hfull =>
    -- the only slot in use may be an idle connection, which `hidle` answers
    have hpos : 0 < inUse s := by
      rcases hr with hlt | hpos
      · omega
      · exact hpos
    refine ⟨fun h0 h1 => ?_, fun h0 => ?_⟩ <;> dsimp only at h0 ⊢ <;> omega
  case dialErr =>
    rcases hd with hnone | hpermit
    · refine ⟨fun h0 h1 => ?_, fun h0 => ?_⟩
      · dsimp only at h1
        omega
      · dsimp only at h0
        omega
    · refine ⟨fun h0 h1 => ?_, fun h0 => ?_⟩ <;> simp only [hpermit, Bool.toNat_true] <;> omega
  case permit hp =>
    refine ⟨fun h0 h1 => ?_, fun h0 => ?_⟩ <;> dsimp only <;> omega
  case push =>
    refine ⟨fun h0 h1 => ?_, fun h0 => ?_⟩ <;> dsimp only at h0 ⊢ <;> omega
  all_goals
    refine ⟨fun h0 h1 => ?_, fun h0 => ?_⟩ <;> dsimp only at h0 ⊢ <;> try dsimp only at h1
    all_goals omega

/-- **Every step keeps the wake-up invariant**, as long as no future is dropped, no `fetch_add` is refused while no slot
is in use, and no dial fails untold. -/
theorem announced_step (h : Announced s) (hc : NoCancel s e) (hr : RefusedInUse s e) (hd : DialErrTold s e)
    (hs : step s e = some t) : Announced t := by
  cases stepped_of_step hs with
  | call =>
    refine ⟨fun _ _ => ?_, fun _ => ?_⟩ <;>
      simp only [tally_append, tally_cons, tally_nil, Pc.announces] <;> omega
  | run hi ha => exact announced_act h hi ha hr hd
  | notify _ hn => exact announced_notified hn
  | cancelFree => exact hc.elim
  | cancelDial => exact hc.elim
  | cancelWoken => exact hc.elim
  | cancelConn => exact hc.elim

/-! ## No waiter is stranded -/

/-- The request is inside `get` or `put` and can go on by itself. -/
def Pc.runnable : Pc → Bool
  | .getParked | .getDial | .lent _ | .ended => false
  | _ => true

/-- If a `get` is parked without a wake-up and no permit is stored, then a connection is lent or being dialed, or some
call can go on. -/
def NotStranded (s : Sys) : Prop :=
  .getParked ∈ s.tasks → s.shared.permit = false →
    0 < tally Pc.lends s.tasks ∨ 0 < tally Pc.dials s.tasks ∨ ∃ pc ∈ s.tasks, pc.runnable = true

instance (s : Sys) : Decidable (NotStranded s) := by unfold NotStranded; infer_instance

theorem notStranded_of_announced (h : Announced s) : NotStranded s := by
  intro hpark hperm
  have hw : 0 < tally Pc.waits s.tasks := tally_pos_iff.2 ⟨_, hpark, Nat.one_pos⟩
  have hpos := h.wait hw
  rw [hperm, Bool.toNat_false, Nat.zero_add, ← tally_add] at hpos
  obtain ⟨pc, hpc, hpos⟩ := tally_pos_iff.1 hpos
  by_cases hrun : pc.runnable = true
  · exact .inr (.inr ⟨pc, hpc, hrun⟩)
  · have hcases : pc = .getDial ∨ ∃ c, pc = .lent c := by
      cases pc <;> simp_all [Pc.runnable, Pc.announces, Pc.adds]
    rcases hcases with rfl | ⟨c, rfl⟩
    · exact .inr (.inl (tally_pos_iff.2 ⟨_, hpc, Nat.one_pos⟩))
    · exact .inl (tally_pos_iff.2 ⟨_, hpc, Nat.one_pos⟩)

theorem announced_new (addr : String) (m : ℕ) : Announced (Sys.new addr m) :=
  ⟨fun h => absurd h (lt_irrefl 0), fun h => absurd h (lt_irrefl 0)⟩

def DialsSucceed (_ : Sys) : Ev → Prop
  | .run _ .dialErr => False
  | _ => True

instance (s : Sys) (e : Ev) : Decidable (DialsSucceed s e) := by
  unfold DialsSucceed; split <;> infer_instance

instance (s : Sys) (e : Ev) : Decidable (RefusedInUse s e) := by
  unfold RefusedInUse; split <;> infer_instance

instance (s : Sys) (e : Ev) : Decidable (DialErrTold s e) := by
  unfold DialErrTold; split <;> infer_instance

theorem dialErrTold_of_dialsSucceed {s : Sys} {e : Ev} (h : DialsSucceed s e) : DialErrTold s e := by
  unfold DialErrTold
  split
  · exact h.elim
  · trivial

/-- **No waiter is stranded while refusals are real.**  In every interleaving in which no future is dropped, every dial
succeeds, and no `fetch_add` is refused at a moment when no slot is in use, no waiter is stranded. -/
theorem notStranded_of_refusedInUse {addr : String} {m : ℕ} {es : List Ev}
    (h : Run step (fun u e => NoCancel u e ∧ DialsSucceed u e ∧ RefusedInUse u e) (Sys.new addr m) es s) :
    NotStranded s := by
  refine notStranded_of_announced (h.invariant (announced_new addr m) fun u e v hu hP hs => ?_)
  obtain ⟨hc, hd, hr⟩ := hP
  exact announced_step hu hc hr (dialErrTold_of_dialsSucceed hd) hs

/-- One request holds the only connection, the other one is parked. -/
theorem notStranded_of_refusedInUse_parked :
    ∃ s, Run step (fun u e => NoCancel u e ∧ DialsSucceed u e ∧ RefusedInUse u e) (Sys.new "u" 1)
        [.call, .run 0 .lock, .run 0 .fetchAdd, .run 0 .dialOk, .call, .run 1 .lock, .run 1 .fetchAdd, .run 1 .fetchSub,
         .run 1 .poll] s ∧
      .getParked ∈ s.tasks ∧ NotStranded s := by
  have hrun : Run step (fun u e => NoCancel u e ∧ DialsSucceed u e ∧ RefusedInUse u e) (Sys.new "u" 1)
      [.call, .run 0 .lock, .run 0 .fetchAdd, .run 0 .dialOk, .call, .run 1 .lock, .run 1 .fetchAdd, .run 1 .fetchSub,
       .run 1 .poll] _ := Run.of_exec_get (by decide)
  exact ⟨_, hrun, by decide, notStranded_of_refusedInUse hrun⟩

/-- Request 0 gives up the only connection and wakes 1 while 2 is between its refused `fetch_add` and its `fetch_sub`:
1 is refused because of 2's increment alone, and both park for good. -/
def strandingEvents : List Ev :=
  [.call, .run 0 .lock, .run 0 .fetchAdd, .run 0 .dialOk,
   .call, .run 1 .lock, .run 1 .fetchAdd, .run 1 .fetchSub, .run 1 .poll,
   .call, .run 2 .lock, .run 2 .fetchAdd,
   .run 0 (.put false), .run 0 .drop, .run 0 .fetchSub, .notify 0 (some 1),
   .run 1 .resume, .run 1 .lock, .run 1 .fetchAdd,
   .run 2 .fetchSub, .run 2 .poll, .run 1 .fetchSub, .run 1 .poll]

theorem refused_by_transient_strands :
    ¬ ∀ (addr : String) (m : ℕ) (es : List Ev) (s : Sys), 1 ≤ m →
      Run step (fun u e => NoCancel u e ∧ DialsSucceed u e) (Sys.new addr m) es s → NotStranded s := by
  intro h
  have hrun : Run step (fun u e => NoCancel u e ∧ DialsSucceed u e) (Sys.new "u" 1) strandingEvents _ :=
    Run.of_exec_get (by decide)
  exact absurd (h _ _ _ _ le_rfl hrun) (by decide)

/-! ## One stretch at a time -/

/-- The request stands at an await point, or outside `get` and `put`. -/
def Pc.awaits : Pc → Bool
  | .getLock | .getDial | .getNotified | .getParked | .getWoken | .lent _ | .putLock _ | .ended => true
  | _ => false

/-- The request that takes the step. -/
def Ev.actor : Ev → Option ℕ
  | .call => none
  | .run i _ | .notify i _ | .cancel i _ => some i

/-- The code between two awaits runs as one step: everybody else is at an await point. -/
def Stretch (s : Sys) (e : Ev) : Prop := ∀ p ∈ s.tasks.zipIdx, e.actor = some p.2 ∨ p.1.awaits = true

instance (s : Sys) (e : Ev) : Decidable (Stretch s e) := by unfold Stretch; infer_instance

theorem Stretch.window {i : ℕ} {a : Act} (h : Stretch s (.run i a)) (hi : s.tasks[i]? = some .getAdd) :
    tally Pc.refused s.tasks = 0 ∧ tally Pc.dials s.tasks = tally Pc.inDial s.tasks := by
  have hcases : ∀ pc ∈ s.tasks, pc = .getAdd ∨ pc.awaits = true := by
    intro pc hpc
    obtain ⟨j, hj⟩ := List.mem_iff_getElem?.1 hpc
    rcases h (pc, j) (List.mem_zipIdx_iff_getElem?.2 hj) with hact | haw
    · obtain rfl : i = j := by simpa [Ev.actor] using hact
      exact .inl (Option.some.inj (hj.symm.trans hi))
    · exact .inr haw
  refine ⟨tally_eq_zero_iff.2 fun pc hpc => ?_, tally_congr fun pc hpc => ?_⟩
  · rcases hcases pc hpc with rfl | haw
    · rfl
    · cases pc <;> simp_all [Pc.awaits, Pc.refused]
  · rcases hcases pc hpc with rfl | haw
    · rfl
    · cases pc <;> simp_all [Pc.awaits, Pc.dials, Pc.inDial]

/-- Without the window, a refused `fetch_add` finds a slot in use. -/
theorem refusedInUse_of_stretch (hl : Ledger 0 s) (hm : 1 ≤ s.shared.maxSize) (h : Stretch s e)
    (hs : step s e = some t) : RefusedInUse s e := by
  unfold RefusedInUse
  split
  · rename_i i
    obtain ⟨pc, p, pc', hi, ha, -⟩ := runLocal_eq_some hs
    have hpc : pc = .getAdd := by
      have := acted_of_act ha
      cases this <;> rfl
    subst hpc
    obtain ⟨h1, h2⟩ := h.window hi
    have h3 := hl.count
    unfold slots at h3
    unfold inUse
    omega
  · trivial

/-- **A failed dial strands nobody when nobody waits.**  In every order of the stretches of `get` and `put`, dials
failing freely but only while no `get` waits for a wake-up (or the permit is stored), no waiter is stranded. -/
theorem notStranded_of_dialErrTold {addr : String} {m : ℕ} {es : List Ev} (hm : 1 ≤ m)
    (h : Run step (fun u e => NoCancel u e ∧ Stretch u e ∧ DialErrTold u e) (Sys.new addr m) es s) :
    NotStranded s := by
  have hinv : Announced s ∧ Ledger 0 s ∧ s.shared.maxSize = m := by
    refine h.invariant (I := fun u => Announced u ∧ Ledger 0 u ∧ u.shared.maxSize = m)
      ⟨announced_new addr m, ledger_new addr m, rfl⟩ ?_
    rintro u e v ⟨ha, hl, hmax⟩ ⟨hc, hst, hd⟩ hs
    have hr := refusedInUse_of_stretch hl (by rw [hmax]; exact hm) hst hs
    have hl' := ledger_step hl hs
    rw [show leak u e = 0 from noLeak_of_noCancel hc] at hl'
    exact ⟨announced_step ha hc hr hd hs, hl', (step_const hs).2.trans hmax⟩
  exact notStranded_of_announced hinv.1

/-- A dial fails while nobody waits; later one request holds the only connection and another one parks. -/
theorem notStranded_of_dialErrTold_parked :
    ∃ s, Run step (fun u e => NoCancel u e ∧ Stretch u e ∧ DialErrTold u e) (Sys.new "u" 1)
        [.call, .run 0 .lock, .run 0 .fetchAdd, .run 0 .dialErr, .run 0 .fetchSub,
         .call, .run 1 .lock, .run 1 .fetchAdd, .run 1 .dialOk,
         .call, .run 2 .lock, .run 2 .fetchAdd, .run 2 .fetchSub, .run 2 .poll] s ∧
      .getParked ∈ s.tasks ∧ NotStranded s := by
  have hrun : Run step (fun u e => NoCancel u e ∧ Stretch u e ∧ DialErrTold u e) (Sys.new "u" 1)
      [.call, .run 0 .lock, .run 0 .fetchAdd, .run 0 .dialErr, .run 0 .fetchSub,
       .call, .run 1 .lock, .run 1 .fetchAdd, .run 1 .dialOk,
       .call, .run 2 .lock, .run 2 .fetchAdd, .run 2 .fetchSub, .run 2 .poll] _ := Run.of_exec_get (by decide)
  exact ⟨_, hrun, by decide, notStranded_of_dialErrTold le_rfl hrun⟩

/-- The dial of request 0 fails while request 1 is parked: the slot is free and nobody says so. -/
theorem dialErr_strands :
    ¬ ∀ (addr : String) (m : ℕ) (es : List Ev) (s : Sys), 1 ≤ m →
      Run step (fun u e => NoCancel u e ∧ Stretch u e) (Sys.new addr m) es s → NotStranded s := by
  intro h
  have hrun : Run step (fun u e => NoCancel u e ∧ Stretch u e) (Sys.new "u" 1)
      [.call, .run 0 .lock, .run 0 .fetchAdd, .call, .run 1 .lock, .run 1 .fetchAdd, .run 1 .fetchSub, .run 1 .poll,
       .run 0 .dialErr, .run 0 .fetchSub] _ := Run.of_exec_get (by decide)
  exact absurd (h _ _ _ _ le_rfl hrun) (by decide)

end ServiceProxy.Upstream
