import ServiceProxy.Go.Pool

/-!
# Waiting for a connection of the Go pool

Slots are freed on three paths (a broken connection, a full channel, a failed dial), and all three only decrement the
counter, while a `Get` that was refused listens to the channel alone.  So a waiting `Get` is served only by a connection
that some other request still has, and what matters is that one exists:

* `Watched` — `outstanding` counts the slots in use and the rejected increments, as an `int32`; and while somebody
  waits, a slot is in use;
* `FreedUnwatched` — no `Add(-1)` takes the last slot away while somebody waits.  This is the step that `Watched` does
  not survive.
-/

namespace ServiceProxy.Go

open ServiceProxy.Lib

/-! ## The ledger -/

def Pc.lends : Pc → ℕ
  | .lent _ | .putSelect _ | .putClose _ => 1
  | _ => 0

/-- The request has a slot and neither a connection nor given the slot back. -/
def Pc.dials : Pc → ℕ
  | .getDial | .getDialErr => 1
  | _ => 0

/-- The request closed its connection and has not subtracted it yet. -/
def Pc.closes : Pc → ℕ
  | .putSub => 1
  | _ => 0

def Pc.refused : Pc → ℕ
  | .getSub => 1
  | _ => 0

def Pc.waits : Pc → ℕ
  | .getSub | .getSelect | .getBlocked => 1
  | _ => 0

/-- The slots in use: idle in the channel, lent, being dialed, or closed and not yet subtracted. -/
def slots (s : Sys) : ℕ :=
  s.shared.conns.length + tally Pc.lends s.tasks + tally Pc.dials s.tasks + tally Pc.closes s.tasks

/-- The request's next `Add(-1)` frees a slot. -/
def Pc.frees : Pc → Bool
  | .getDialErr | .putSub => true
  | _ => false

/-- A slot is freed only while another one stays in use, or nobody waits for it. -/
def FreedUnwatched (s : Sys) : Ev → Prop
  | .run i .sub => (∀ pc ∈ s.tasks[i]?, pc.frees = false) ∨ 1 < slots s ∨ tally Pc.waits s.tasks = 0
  | _ => True

def NoCtxDone (_ : Sys) : Ev → Prop
  | .run _ .ctxDone => False
  | _ => True

instance (s : Sys) (e : Ev) : Decidable (FreedUnwatched s e) := by
  unfold FreedUnwatched; split <;> infer_instance

instance (s : Sys) (e : Ev) : Decidable (NoCtxDone s e) := by
  unfold NoCtxDone; split <;> infer_instance

/-- **The invariant**: the counter, and a slot in use while somebody waits. -/
structure Watched (s : Sys) : Prop where
  count : s.shared.outstanding = int32 (slots s + tally Pc.refused s.tasks : ℕ)
  wait : 0 < tally Pc.waits s.tasks → 0 < slots s

variable {s t : Sys} {e : Ev}

theorem weights_set {ts : List Pc} {i : ℕ} {pc : Pc} (hi : ts[i]? = some pc) (pc' : Pc) :
    tally Pc.lends (ts.set i pc') + pc.lends = tally Pc.lends ts + pc'.lends ∧
    tally Pc.dials (ts.set i pc') + pc.dials = tally Pc.dials ts + pc'.dials ∧
    tally Pc.closes (ts.set i pc') + pc.closes = tally Pc.closes ts + pc'.closes ∧
    tally Pc.refused (ts.set i pc') + pc.refused = tally Pc.refused ts + pc'.refused ∧
    tally Pc.waits (ts.set i pc') + pc.waits = tally Pc.waits ts + pc'.waits :=
  ⟨tally_set _ hi _, tally_set _ hi _, tally_set _ hi _, tally_set _ hi _, tally_set _ hi _⟩

theorem int32_add_one (n : ℕ) : int32 (int32 n + 1) = int32 ((n + 1 : ℕ) : ℤ) := by
  unfold int32
  rw [Int.bmod_add_bmod]
  congr 1

theorem int32_sub_one {n : ℕ} (h : 0 < n) : int32 (int32 n - 1) = int32 ((n - 1 : ℕ) : ℤ) := by
  unfold int32
  rw [Int.bmod_sub_bmod]
  congr 1
  omega

/-- Nothing is refused while the counter is zero and the size is a positive `int32`. -/
theorem pos_of_refuse {n : ℕ} {m : ℤ} (hm : 1 ≤ m) (h : m < int32 (int32 n + 1)) : 0 < n := by
  rcases Nat.eq_zero_or_pos n with rfl | hn
  · have : int32 (int32 (0 : ℕ) + 1) = 1 := by decide
    omega
  · exact hn

/-! ## One step -/

section Moves

variable {u : Sys}

theorem Watched.stay (h : Watched s) (ho : u.shared.outstanding = s.shared.outstanding)
    (hL : slots u + tally Pc.refused u.tasks = slots s + tally Pc.refused s.tasks)
    (hw : 0 < tally Pc.waits u.tasks → 0 < slots u) : Watched u :=
  ⟨by rw [ho, h.count, hL], hw⟩

theorem Watched.up (h : Watched s) (ho : u.shared.outstanding = int32 (s.shared.outstanding + 1))
    (hL : slots u + tally Pc.refused u.tasks = slots s + tally Pc.refused s.tasks + 1)
    (hw : 0 < tally Pc.waits u.tasks → 0 < slots u) : Watched u :=
  ⟨by rw [ho, h.count, int32_add_one, hL], hw⟩

theorem Watched.down (h : Watched s) (ho : u.shared.outstanding = int32 (s.shared.outstanding - 1))
    (hL : slots u + tally Pc.refused u.tasks + 1 = slots s + tally Pc.refused s.tasks)
    (hw : 0 < tally Pc.waits u.tasks → 0 < slots u) : Watched u := by
  refine ⟨?_, hw⟩
  rw [ho, h.count, int32_sub_one (by omega), ← hL, Nat.add_sub_cancel]

end Moves

theorem watched_act {i : ℕ} {a : Act} {pc pc' : Pc} {p : Pool} (h : Watched s) (hi : s.tasks[i]? = some pc)
    (ha : Acted s.shared pc a p pc') (hm : 1 ≤ int32 s.shared.maxSize) (hf : FreedUnwatched s (.run i a)) :
    Watched ⟨p, s.tasks.set i pc'⟩ := by
  obtain ⟨hl, hd, hc, hr, hw⟩ := weights_set hi pc'
  have hwait := h.wait
  have hrw : tally Pc.refused s.tasks ≤ tally Pc.waits s.tasks := by
    refine tally_mono fun pc _ => ?_
    cases pc <;> simp [Pc.refused, Pc.waits]
  have hfree : a = .sub → pc.frees = true → 1 < slots s ∨ tally Pc.waits s.tasks = 0 := by
    rintro rfl hfr
    rcases hf with hno | hslots
    · rw [hno pc (by rw [hi]; rfl)] at hfr
      cases hfr
    · exact hslots
  have hcount := h.count
  unfold slots at hwait hfree hcount
  cases ha <;> simp only [Pc.lends, Pc.dials, Pc.closes, Pc.refused, Pc.waits] at hl hd hc hr hw
  case tryRecv hconns | selectRecv hconns =>
    rw [hconns, List.length_cons] at hwait
    refine h.stay rfl ?_ fun h0 => ?_ <;> simp only [slots, hconns, List.length_cons] at * <;> omega
  case accept => refine h.up rfl ?_ fun h0 => ?_ <;> simp only [slots] at * <;> omega
  case refuse hlt =>
    rw [hcount] at hlt
    have hpos := pos_of_refuse hm hlt
    refine h.up rfl ?_ fun h0 => ?_ <;> simp only [slots] at * <;> omega
  case refuseSub => refine h.down rfl ?_ fun h0 => ?_ <;> simp only [slots] at * <;> omega
  case dialSub | putSub =>
    have hslots := hfree rfl rfl
    refine h.down rfl ?_ fun h0 => ?_ <;> simp only [slots] at * <;> omega
  all_goals refine h.stay rfl ?_ fun h0 => ?_ <;> simp only [slots] at * <;> omega

/-- **Every step keeps the invariant**, as long as the size is a positive `int32` and no `Add(-1)` takes the last slot
away from a waiting `Get`. -/
theorem watched_step (h : Watched s) (hm : 1 ≤ int32 s.shared.maxSize) (hf : FreedUnwatched s e)
    (hs : step s e = some t) : Watched t := by
  have hwait := h.wait
  unfold slots at hwait
  cases stepped_of_step hs with
  | call =>
    refine h.stay rfl ?_ fun h0 => ?_ <;>
      simp only [slots, tally_append, tally_cons, tally_nil, Pc.lends, Pc.dials, Pc.closes, Pc.refused,
        Pc.waits] at * <;> omega
  | run hi ha => exact watched_act h hi ha hm hf
  | handOff hi hw =>
    obtain ⟨hl, hd, hc, hr, hwt⟩ := weights_set hi .ended
    obtain ⟨hl', hd', hc', hr', hwt'⟩ := weights_set hw (.lent ‹_›)
    simp only [Pc.lends, Pc.dials, Pc.closes, Pc.refused, Pc.waits] at hl hd hc hr hwt hl' hd' hc' hr' hwt'
    refine h.stay rfl ?_ fun h0 => ?_ <;> simp only [slots] at * <;> omega
  | enqueue hi _ _ =>
    obtain ⟨hl, hd, hc, hr, hwt⟩ := weights_set hi .ended
    simp only [Pc.lends, Pc.dials, Pc.closes, Pc.refused, Pc.waits] at hl hd hc hr hwt
    refine h.stay rfl ?_ fun h0 => ?_ <;>
      simp only [slots, List.length_append, List.length_cons, List.length_nil] at * <;> omega
  | overflow hi _ _ =>
    obtain ⟨hl, hd, hc, hr, hwt⟩ := weights_set hi (.putClose ‹_›)
    simp only [Pc.lends, Pc.dials, Pc.closes, Pc.refused, Pc.waits] at hl hd hc hr hwt
    refine h.stay rfl ?_ fun h0 => ?_ <;> simp only [slots] at * <;> omega

/-! ## Whole runs -/

def Pc.runnable : Pc → Bool
  | .getBlocked | .getDial | .lent _ | .ended => false
  | _ => true

/-- If a `Get` is blocked in its second `select`, then a connection is lent, idle or being dialed, or some call can go
on. -/
def NotStranded (s : Sys) : Prop :=
  .getBlocked ∈ s.tasks →
    0 < tally Pc.lends s.tasks ∨ s.shared.conns ≠ [] ∨ 0 < tally Pc.dials s.tasks ∨
      ∃ pc ∈ s.tasks, pc.runnable = true

instance (s : Sys) : Decidable (NotStranded s) := by unfold NotStranded; infer_instance

theorem notStranded_of_watched (h : Watched s) : NotStranded s := by
  intro hb
  have hpos := h.wait (tally_pos_iff.2 ⟨_, hb, Nat.one_pos⟩)
  unfold slots at hpos
  by_cases hc : 0 < tally Pc.closes s.tasks
  · obtain ⟨pc, hpc, hpos⟩ := tally_pos_iff.1 hc
    refine .inr (.inr (.inr ⟨pc, hpc, ?_⟩))
    cases pc <;> simp_all [Pc.closes, Pc.runnable]
  · rcases Nat.eq_zero_or_pos s.shared.conns.length with h0 | h0
    · by_cases hl : 0 < tally Pc.lends s.tasks
      · exact .inl hl
      · exact .inr (.inr (.inl (by omega)))
    · exact .inr (.inl (List.length_pos_iff.1 h0))

theorem watched_new (addr : String) (m : ℕ) : Watched (Sys.new addr m) := by
  refine ⟨?_, fun h => absurd h (lt_irrefl 0)⟩
  show (0 : ℤ) = int32 (0 : ℕ)
  decide

theorem step_const (hs : step s e = some t) : t.shared.maxSize = s.shared.maxSize := by
  cases stepped_of_step hs with
  | run _ ha => cases ha <;> rfl
  | _ => rfl

/-- **No waiter is stranded while the last slot is not taken from it.**  In every interleaving in which no context ends
and no `Add(-1)` frees the last slot in use while a `Get` waits, `maxSize` being positive as an `int32`, nobody is
stranded. -/
theorem notStranded_of_freedUnwatched {addr : String} {m : ℕ} {es : List Ev} (hm : 1 ≤ int32 m)
    (h : Run step (fun u e => NoCtxDone u e ∧ FreedUnwatched u e) (Sys.new addr m) es s) : NotStranded s := by
  have hinv : Watched s ∧ s.shared.maxSize = m := by
    refine h.invariant (I := fun u => Watched u ∧ u.shared.maxSize = m)
      ⟨watched_new addr m, rfl⟩ ?_
    rintro u e v ⟨hu, hmax⟩ ⟨-, hf⟩ hs
    exact ⟨watched_step hu (by rw [hmax]; exact hm) hf hs, (step_const hs).trans hmax⟩
  exact notStranded_of_watched hinv.1

/-- One of two connections breaks while a third request is blocked. -/
theorem notStranded_of_freedUnwatched_broken :
    ∃ s, Run step (fun u e => NoCtxDone u e ∧ FreedUnwatched u e) (Sys.new "u" 2)
        [.call, .run 0 .recv, .run 0 .add, .run 0 .dialOk, .call, .run 1 .recv, .run 1 .add, .run 1 .dialOk,
         .call, .run 2 .recv, .run 2 .add, .run 2 .sub, .run 2 .recv,
         .run 0 (.put false), .run 0 .close, .run 0 .sub] s ∧
      .getBlocked ∈ s.tasks ∧ NotStranded s := by
  have hrun : Run step (fun u e => NoCtxDone u e ∧ FreedUnwatched u e) (Sys.new "u" 2)
      [.call, .run 0 .recv, .run 0 .add, .run 0 .dialOk, .call, .run 1 .recv, .run 1 .add, .run 1 .dialOk,
       .call, .run 2 .recv, .run 2 .add, .run 2 .sub, .run 2 .recv,
       .run 0 (.put false), .run 0 .close, .run 0 .sub] _ := Run.of_exec_get (by decide)
  exact ⟨_, hrun, by decide, notStranded_of_freedUnwatched (by decide) hrun⟩

/-- The only connection breaks while the second request is blocked: the slot is free, and it blocks for good. -/
theorem broken_put_strands :
    ¬ ∀ (addr : String) (m : ℕ) (es : List Ev) (s : Sys), 1 ≤ m → Run step NoCtxDone (Sys.new addr m) es s →
      NotStranded s := by
  intro h
  have hrun : Run step NoCtxDone (Sys.new "u" 1)
      [.call, .run 0 .recv, .run 0 .add, .run 0 .dialOk, .call, .run 1 .recv, .run 1 .add, .run 1 .sub, .run 1 .recv,
       .run 0 (.put false), .run 0 .close, .run 0 .sub] _ := Run.of_exec_get (by decide)
  exact absurd (h _ _ _ _ le_rfl hrun) (by decide)

end ServiceProxy.Go
