import ServiceProxy.Go.PoolLend
import ServiceProxy.Go.PoolWait
import ServiceProxy.Lib.Slots

/-!
# The accounting of the Go pool

The counter and the channel are changed in separate steps, and the counter overshoots while a `Get` is being refused.  As
long as it stays an `int32`, it says in every state of every interleaving what is idle, lent, being dialed, closed and not
yet subtracted, or about to be taken back (`Ledger`); so a `Put` always finds room in the channel, and its `default` branch
is dead code.

`accounted_of_fits` is what this and `Placed` say together.
-/

namespace ServiceProxy.Go

open ServiceProxy.Lib

/-! ## The ledger -/

def Pc.adds : Pc → ℕ
  | .getAdd => 1
  | _ => 0

def Pc.subtracts : Pc → Bool
  | .getDialErr | .getSub | .putSub => true
  | _ => false

/-- The counter and the pending increments fit in an `int32`. -/
def Fits (s : Sys) (_ : Ev) : Prop := s.shared.outstanding + tally Pc.adds s.tasks < 2 ^ 31

instance (s : Sys) (e : Ev) : Decidable (Fits s e) := by unfold Fits; infer_instance

/-- The slots that a request has. -/
def Pc.slot (pc : Pc) : ℕ := pc.lends + pc.dials + pc.closes

/-- **The ledger**: the counter has not wrapped, and it is the number of its account. -/
structure Ledger (s : Sys) : Prop where
  nonneg : 0 ≤ s.shared.outstanding
  account : Account Pc.slot Pc.refused s.shared.maxSize s.shared.conns.length 0 s.shared.outstanding.toNat s.tasks

variable {s t : Sys} {e : Ev} {i : ℕ} {pc pc' : Pc}

theorem int32_eq {n : ℤ} (h : -2 ^ 31 ≤ n) (h' : n < 2 ^ 31) : int32 n = n := by
  unfold int32
  rw [Int.bmod_eq_of_le] <;> omega

theorem slots_eq (s : Sys) : slots s = s.shared.conns.length + tally Pc.slot s.tasks := by
  have hslot : tally Pc.slot s.tasks = tally Pc.lends s.tasks + tally Pc.dials s.tasks + tally Pc.closes s.tasks := by
    rw [← tally_add, ← tally_add]
    rfl
  unfold slots
  omega

theorem Ledger.count (h : Ledger s) : s.shared.outstanding = (slots s + tally Pc.refused s.tasks : ℕ) := by
  have hcount := h.account.count
  have hnonneg := h.nonneg
  rw [slots_eq]
  omega

theorem Ledger.bound (h : Ledger s) : slots s ≤ s.shared.maxSize := by
  rw [slots_eq]
  exact h.account.bound

theorem Ledger.pos_of_subtracts (h : Ledger s) (hi : s.tasks[i]? = some pc) (hs : pc.subtracts = true) :
    0 < s.shared.outstanding := by
  have hpos : 0 < s.shared.outstanding.toNat := by
    refine h.account.pos hi ?_
    cases pc with
    | getDialErr | getSub | putSub => exact Nat.one_pos
    | _ => cases hs
  omega

theorem Ledger.room (h : Ledger s) {c : Conn} (hi : s.tasks[i]? = some (.putSelect c)) :
    s.shared.conns.length < s.shared.maxSize := h.account.room hi Nat.one_pos

/-! ## One step -/

theorem ledger_act {a : Act} {p : Pool} (h : Ledger s) (hi : s.tasks[i]? = some pc) (ha : Acted s.shared pc a p pc')
    (hm : s.shared.maxSize < 2 ^ 31) (hfit : s.shared.outstanding + tally Pc.adds s.tasks < 2 ^ 31) :
    Ledger ⟨p, s.tasks.set i pc'⟩ := by
  have hadds := le_tally Pc.adds hi
  have hnonneg := h.nonneg
  have hsub := h.pos_of_subtracts hi
  have hsize : int32 s.shared.maxSize = s.shared.maxSize := int32_eq (by omega) (by omega)
  -- the counter after an `Add`, which does not wrap
  have hup : s.shared.outstanding + 1 < 2 ^ 31 → int32 (s.shared.outstanding + 1) = s.shared.outstanding + 1 ∧
      (s.shared.outstanding + 1).toNat = s.shared.outstanding.toNat + 1 :=
    fun hlt => ⟨int32_eq (by omega) hlt, by omega⟩
  have hdown : 0 < s.shared.outstanding → int32 (s.shared.outstanding - 1) = s.shared.outstanding - 1 ∧
      (s.shared.outstanding - 1).toNat = s.shared.outstanding.toNat - 1 :=
    fun hpos => ⟨int32_eq (by omega) (by omega), by omega⟩
  cases ha with
  | tryRecv hconns | selectRecv hconns =>
    refine ⟨hnonneg, h.account.stay hi ?_ rfl⟩
    rw [hconns]
    rfl
  | accept hle =>
    simp only [Pc.adds] at hadds
    obtain ⟨hint, hnat⟩ := hup (by omega)
    rw [hint, hsize] at hle
    refine ⟨by simp only [hint]; omega, ?_⟩
    simp only [hint, hnat]
    exact h.account.claim hi (by omega) rfl rfl
  | refuse =>
    simp only [Pc.adds] at hadds
    obtain ⟨hint, hnat⟩ := hup (by omega)
    refine ⟨by simp only [hint]; omega, ?_⟩
    simp only [hint, hnat]
    exact h.account.refuse hi rfl rfl
  | dialSub | putSub =>
    obtain ⟨hint, hnat⟩ := hdown (hsub rfl)
    have hpos := hsub rfl
    refine ⟨by simp only [hint]; omega, ?_⟩
    simp only [hint, hnat]
    exact h.account.release hi rfl rfl
  | refuseSub =>
    obtain ⟨hint, hnat⟩ := hdown (hsub rfl)
    have hpos := hsub rfl
    refine ⟨by simp only [hint]; omega, ?_⟩
    simp only [hint, hnat]
    exact h.account.takeBack hi rfl rfl
  | _ => exact ⟨hnonneg, h.account.stay hi rfl rfl⟩

/-- **Every step keeps the ledger**, as long as the counter fits. -/
theorem ledger_step (h : Ledger s) (hm : s.shared.maxSize < 2 ^ 31) (hfit : Fits s e) (hs : step s e = some t) :
    Ledger t := by
  cases stepped_of_step hs with
  | call => exact ⟨h.nonneg, h.account.come rfl rfl⟩
  | run hi ha => exact ledger_act h hi ha hm hfit
  | @handOff i _ _ hi hw =>
    -- the slot goes through the store, although the connection does not
    have hstore : Account Pc.slot Pc.refused _ (s.shared.conns.length + 1) 0 _ (s.tasks.set i .ended) :=
      h.account.stay hi rfl rfl
    exact ⟨h.nonneg, hstore.stay hw rfl rfl⟩
  | enqueue hi _ _ =>
    refine ⟨h.nonneg, h.account.stay hi ?_ rfl⟩
    rw [List.length_append]
    rfl
  | overflow hi _ hfull =>
    -- there is room: this step does not exist
    exact absurd (h.room hi) (by omega)

theorem ledger_new (addr : String) (m : ℕ) : Ledger (Sys.new addr m) := ⟨le_rfl, rfl, Nat.zero_le _⟩

/-! ## Whole runs -/

/-- **The accounts of the pool.** -/
structure Accounted (m : ℕ) (s : Sys) : Prop where
  /-- an open connection is in the channel or lent to one caller, and nothing else is anywhere -/
  onePlace : ∀ c, s.shared.conns.count c + tally (holds Pc.conn? c) s.tasks = if c ∈ s.shared.sockets then 1 else 0
  outstanding : s.shared.outstanding = (s.shared.conns.length + tally Pc.lends s.tasks + tally Pc.dials s.tasks +
    tally Pc.closes s.tasks + tally Pc.refused s.tasks : ℕ)
  bound : s.shared.conns.length + tally Pc.lends s.tasks + tally Pc.dials s.tasks ≤ m
  nonneg : 0 ≤ s.shared.outstanding
  /-- no `Add(-1)` makes it negative -/
  pos : ∀ (i : ℕ) (pc : Pc), s.tasks[i]? = some pc → pc.subtracts = true → 0 < s.shared.outstanding
  /-- the `default` branch of `Put` is never taken -/
  noDefault : ∀ (i : ℕ) (c : Conn), s.tasks[i]? = some (.putSelect c) → s.shared.conns.length < s.shared.maxSize

theorem accounted_of_ledger {m : ℕ} (h : Ledger s) (hp : Placed s) (hmax : s.shared.maxSize = m) : Accounted m s := by
  refine ⟨fun c => ?_, h.count, ?_, h.nonneg, fun i pc hi => h.pos_of_subtracts hi, fun i c hi => h.room hi⟩
  · rw [← hp.place.once c]
    split_ifs with hc
    · exact List.count_eq_one_of_mem hp.place.nodup hc
    · exact List.count_eq_zero_of_not_mem hc
  · have hbound := h.bound
    unfold slots at hbound
    omega

/-- **Pool accounting in Go.**  In every interleaving of any number of requests, with dials that succeed or fail and
contexts that end, the accounts are right in every state, as long as the counter and the pending increments fit in an
`int32`. -/
theorem accounted_of_fits {addr : String} {m : ℕ} {es : List Ev} (hm : 1 ≤ m) (hm' : m < 2 ^ 31)
    (h : Run step Fits (Sys.new addr m) es s) : Accounted m s := by
  have hinv : Ledger s ∧ Placed s ∧ s.shared.maxSize = m := by
    refine h.invariant (I := fun u => Ledger u ∧ Placed u ∧ u.shared.maxSize = m)
      ⟨ledger_new addr m, placed_new addr m, rfl⟩ ?_
    rintro u e v ⟨hl, hp, hmax⟩ hfit hs
    exact ⟨ledger_step hl (by omega) hfit hs, placed_step hp hs, (step_const hs).trans hmax⟩
  obtain ⟨hl, hp, hmax⟩ := hinv
  exact accounted_of_ledger hl hp hmax

/-- Two requests race for the only slot; the context of the refused one ends, the other one puts its connection back. -/
def raceEvents : List Ev :=
  [.call, .call, .run 0 .recv, .run 1 .recv, .run 0 .add, .run 1 .add, .run 0 .dialOk, .run 1 .sub, .run 1 .recv,
    .run 1 .ctxDone, .run 0 (.put true)]

theorem accounted_of_fits_race :
    ∃ s, Run step Fits (Sys.new "u" 1) raceEvents s ∧ 1 ≤ 1 ∧ 1 < 2 ^ 31 ∧ s.shared.outstanding = 1 ∧ Accounted 1 s := by
  have hrun : Run step Fits (Sys.new "u" 1) raceEvents _ := Run.of_exec_get (by decide)
  exact ⟨_, hrun, by decide, by decide, by decide, accounted_of_fits (by decide) (by decide) hrun⟩

end ServiceProxy.Go
