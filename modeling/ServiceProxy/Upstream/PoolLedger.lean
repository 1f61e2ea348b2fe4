import ServiceProxy.Upstream.Pool
import ServiceProxy.Lib.Custody
import ServiceProxy.Lib.Slots

/-!
# The accounting of the pool

`outstanding` is kept by `fetch_add` and `fetch_sub` that no lock protects, so in the middle of a call it says more
than the number of connections.  The ledger says what it counts in every state of every interleaving:

* `Ledger k s` — `outstanding` is what is idle, lent, being dialed, closed but not yet subtracted, or added by a `get`
  that is about to take it back, plus the `k` slots that were lost to dropped futures; the slots in use never exceed
  `max_size`;
* `Placed s` — every open socket is in exactly one place, and it leads to the address of the pool;
* `ledger_step`, `placed_step` — every step keeps both, where `leak` counts the slot a dropped future takes along.

`manager_accounting` and `cancel_law` are what this says of `Manager::new` and of dropped futures.
-/

namespace ServiceProxy.Upstream

open ServiceProxy.Lib

/-! ## What a request holds -/

def Pc.conn? : Pc → Option Conn
  | .lent c | .putLock c | .putDrop c => some c
  | _ => none

/-- The request holds a connection: it is lent to it. -/
def Pc.lends (pc : Pc) : ℕ := if pc.conn?.isSome then 1 else 0

def Pc.holds (c : Conn) (pc : Pc) : ℕ := if pc.conn? = some c then 1 else 0

/-- The request is dialing: it has a slot and neither a connection nor given the slot back. -/
def Pc.dials : Pc → ℕ
  | .getDial | .getDialErr => 1
  | _ => 0

/-- The request closed its connection and has not subtracted it yet. -/
def Pc.closes : Pc → ℕ
  | .putSub => 1
  | _ => 0

/-- The request stands between its rejected `fetch_add` and the matching `fetch_sub`. -/
def Pc.refused : Pc → ℕ
  | .getSub => 1
  | _ => 0

def Pc.subtracts : Pc → Bool
  | .getDialErr | .getSub | .putSub => true
  | _ => false

/-- The slots in use: idle, lent, being dialed, or closed and not yet subtracted. -/
def slots (s : Sys) : ℕ :=
  s.shared.idle.length + tally Pc.lends s.tasks + tally Pc.dials s.tasks + tally Pc.closes s.tasks

/-- How often the connection `c` occurs: in the idle list, and in the hands of requests. -/
def places (c : Conn) (s : Sys) : ℕ := s.shared.idle.count c + tally (Pc.holds c) s.tasks

/-- The slot that the event takes along: a future is dropped while it dials or while it holds a connection. -/
def leak (s : Sys) : Ev → ℕ
  | .cancel i _ =>
    match s.tasks[i]? with
    | some .getDial | some (.lent _) | some (.putLock _) => 1
    | _ => 0
  | _ => 0

/-- The slots that a request has. -/
def Pc.slot (pc : Pc) : ℕ := pc.lends + pc.dials + pc.closes

/-- **The ledger**, with `k` slots lost. -/
def Ledger (k : ℕ) (s : Sys) : Prop :=
  Account Pc.slot Pc.refused s.shared.maxSize s.shared.idle.length k s.shared.outstanding s.tasks

/-- **Every open socket is in exactly one place**, and no other connection is anywhere. -/
structure Placed (s : Sys) : Prop where
  once : ∀ c, s.shared.sockets.count c = places c s
  nodup : s.shared.sockets.Nodup
  fresh : ∀ c ∈ s.shared.sockets, c.addr = s.shared.addr ∧ c.id < s.shared.dialed

/-! ## One step -/

variable {s t : Sys} {k : ℕ} {e : Ev}

theorem slots_eq (s : Sys) : slots s = s.shared.idle.length + tally Pc.slot s.tasks := by
  have hslot : tally Pc.slot s.tasks = tally Pc.lends s.tasks + tally Pc.dials s.tasks + tally Pc.closes s.tasks := by
    rw [← tally_add, ← tally_add]
    rfl
  unfold slots
  omega

theorem Ledger.count (h : Ledger k s) : s.shared.outstanding = slots s + tally Pc.refused s.tasks + k := by
  rw [slots_eq]
  exact Account.count h

theorem Ledger.bound (h : Ledger k s) : slots s + k ≤ s.shared.maxSize := by
  rw [slots_eq]
  exact Account.bound h

theorem Ledger.pos_of_subtracts (h : Ledger k s) {i : ℕ} {pc : Pc} (hi : s.tasks[i]? = some pc)
    (hs : pc.subtracts = true) : 0 < s.shared.outstanding := by
  refine Account.pos h hi ?_
  cases pc with
  | getDialErr | getSub | putSub => exact Nat.one_pos
  | _ => cases hs

theorem Ledger.room_of_putLock (h : Ledger k s) {i : ℕ} {c : Conn} (hi : s.tasks[i]? = some (.putLock c)) :
    s.shared.idle.length < s.shared.maxSize := Account.room h hi Nat.one_pos

theorem fetchSub_of_pos {n : ℕ} (h : 0 < n) : fetchSub n = n - 1 := by
  unfold fetchSub
  rw [if_neg (by omega)]

theorem Ledger.move {i : ℕ} {pc : Pc} (h : Ledger k s) (hi : s.tasks[i]? = some pc) (pc' : Pc) (hslot : pc'.slot = pc.slot)
    (hrefused : pc'.refused = pc.refused) : Ledger k ⟨s.shared, s.tasks.set i pc'⟩ :=
  Account.stay h hi (by rw [hslot]) hrefused

theorem ledger_act {i : ℕ} {a : Act} {pc pc' : Pc} {p : Pool} (h : Ledger k s) (hi : s.tasks[i]? = some pc)
    (ha : Acted s.shared pc a p pc') : Ledger k ⟨p, s.tasks.set i pc'⟩ := by
  have hsub := h.pos_of_subtracts hi
  have haccount : Account Pc.slot Pc.refused _ _ _ _ _ := h
  cases ha with
  | pop hidle =>
    refine haccount.stay hi ?_ rfl
    rw [hidle]
    rfl
  | accept hlt => exact haccount.claim hi hlt rfl rfl
  | refuse => exact haccount.refuse hi rfl rfl
  | dialSub | putSub =>
    unfold Ledger
    rw [fetchSub_of_pos (hsub rfl)]
    exact haccount.release hi rfl rfl
  | refuseSub =>
    unfold Ledger
    rw [fetchSub_of_pos (hsub rfl)]
    exact haccount.takeBack hi rfl rfl
  | _ => exact haccount.stay hi rfl rfl

theorem ledger_notified {w : Option ℕ} (h : Ledger k s) (hn : Notified s w t) : Ledger k t := by
  cases hn with
  | wake hw => exact h.move hw _ rfl rfl
  | store => exact h

/-- **Every step keeps the ledger**; a dropped future loses the slot it had. -/
theorem ledger_step (h : Ledger k s) (hs : step s e = some t) : Ledger (k + leak s e) t := by
  have haccount : Account Pc.slot Pc.refused _ _ _ _ _ := h
  cases stepped_of_step hs with
  | call => exact haccount.come rfl rfl
  | run hi ha => exact ledger_act h hi ha
  | notify hi hn => exact ledger_notified (h.move hi .ended rfl rfl) hn
  | cancelFree hi hpc => rcases hpc with rfl | rfl <;> simp only [leak, hi] <;> exact haccount.stay hi rfl rfl
  | cancelWoken hi hn =>
    simp only [leak, hi]
    exact ledger_notified (h.move hi .ended rfl rfl) hn
  | cancelDial hi =>
    simp only [leak, hi]
    exact haccount.lose hi rfl rfl
  | cancelConn hi hpc => rcases hpc with rfl | rfl <;> simp only [leak, hi] <;> exact haccount.lose hi rfl rfl

/-! ## Where the connections are -/

theorem Placed.inOnePlace (h : Placed s) : InOnePlace Pc.conn? s.shared.sockets s.shared.idle s.tasks :=
  ⟨h.nodup, h.once⟩

theorem placed_of_inOnePlace {p : Pool} {ts : List Pc} (h : InOnePlace Pc.conn? p.sockets p.idle ts)
    (hfresh : ∀ c ∈ p.sockets, c.addr = p.addr ∧ c.id < p.dialed) : Placed ⟨p, ts⟩ :=
  ⟨h.once, h.nodup, hfresh⟩

theorem Placed.move {i : ℕ} {pc : Pc} (h : Placed s) (hi : s.tasks[i]? = some pc) (pc' : Pc)
    (hc : pc.conn? = pc'.conn?) : Placed ⟨s.shared, s.tasks.set i pc'⟩ :=
  placed_of_inOnePlace (h.inOnePlace.keep hi hc) h.fresh

theorem Placed.frame {p q : Pool} {ts : List Pc} (h : Placed ⟨q, ts⟩) (hidle : p.idle = q.idle)
    (hsock : p.sockets = q.sockets) (haddr : p.addr = q.addr) (hdialed : p.dialed = q.dialed) : Placed ⟨p, ts⟩ := by
  refine placed_of_inOnePlace ?_ ?_
  · rw [hsock, hidle]
    exact h.inOnePlace
  · rw [hsock, haddr, hdialed]
    exact h.fresh

theorem placed_notified {w : Option ℕ} (h : Placed s) (hn : Notified s w t) : Placed t := by
  cases hn with
  | wake hw => exact h.move hw _ rfl
  | store => exact h.frame rfl rfl rfl rfl

theorem Placed.close {i : ℕ} {pc pc' : Pc} {c : Conn} (h : Placed s) (hi : s.tasks[i]? = some pc)
    (hc : pc.conn? = some c) (hc' : pc'.conn? = none) :
    Placed ⟨{ s.shared with sockets := s.shared.sockets.erase c }, s.tasks.set i pc'⟩ :=
  placed_of_inOnePlace (h.inOnePlace.destroy hi hc hc') fun d hd => h.fresh d (List.mem_of_mem_erase hd)

theorem placed_act {i : ℕ} {a : Act} {pc pc' : Pc} {p : Pool} (h : Placed s) (hi : s.tasks[i]? = some pc)
    (ha : Acted s.shared pc a p pc') : Placed ⟨p, s.tasks.set i pc'⟩ := by
  cases ha with
  | pop hidle => exact placed_of_inOnePlace (h.inOnePlace.take hi (.of_eq hidle) rfl rfl) h.fresh
  | push => exact placed_of_inOnePlace (h.inOnePlace.give hi (.refl _) rfl rfl) h.fresh
  | dialOk =>
    have hnew : (⟨s.shared.addr, s.shared.dialed⟩ : Conn) ∉ s.shared.sockets := fun hm => by
      have := (h.fresh _ hm).2
      simp at this
    refine placed_of_inOnePlace (h.inOnePlace.make hi hnew rfl rfl) fun d hd => ?_
    rcases List.mem_cons.1 hd with rfl | hd
    · exact ⟨rfl, Nat.lt_succ_self _⟩
    · obtain ⟨h1, h2⟩ := h.fresh d hd
      exact ⟨h1, Nat.lt_succ_of_lt h2⟩
  | drop => exact h.close hi rfl rfl
  | empty | dialErr | park | resume | putHealthy | putBroken | overflow => exact h.move hi _ rfl
  | accept | refuse | dialSub | refuseSub | permit | putSub =>
    refine Placed.frame (h.move hi _ ?_) rfl rfl rfl rfl
    rfl

/-- **Every step keeps every connection in one place.** -/
theorem placed_step (h : Placed s) (hs : step s e = some t) : Placed t := by
  cases stepped_of_step hs with
  | call => exact placed_of_inOnePlace (h.inOnePlace.come rfl) h.fresh
  | run hi ha => exact placed_act h hi ha
  | notify hi hn => exact placed_notified (h.move hi .ended rfl) hn
  | cancelFree hi hpc => rcases hpc with rfl | rfl <;> exact h.move hi .ended rfl
  | cancelWoken hi hn => exact placed_notified (h.move hi .ended rfl) hn
  | cancelDial hi => exact h.move hi .ended rfl
  | cancelConn hi hpc => rcases hpc with rfl | rfl <;> exact h.close hi rfl rfl

/-! ## Whole runs -/

def NoCancel (_ : Sys) : Ev → Prop
  | .cancel _ _ => False
  | _ => True

instance (s : Sys) (e : Ev) : Decidable (NoCancel s e) := by
  cases e <;> unfold NoCancel <;> infer_instance

/-- No future is dropped while it dials or holds a connection. -/
def NoLeak (s : Sys) (e : Ev) : Prop := leak s e = 0

instance (s : Sys) (e : Ev) : Decidable (NoLeak s e) := by unfold NoLeak; infer_instance

theorem noLeak_of_noCancel {s : Sys} {e : Ev} (h : NoCancel s e) : NoLeak s e := by
  cases e with
  | cancel => exact h.elim
  | _ => rfl

theorem ledger_new (addr : String) (m : ℕ) : Ledger 0 (Sys.new addr m) :=
  ⟨rfl, Nat.zero_le _⟩

theorem placed_new (addr : String) (m : ℕ) : Placed (Sys.new addr m) :=
  ⟨fun _ => rfl, List.nodup_nil, fun _ hc => by cases hc⟩

theorem step_const (hs : step s e = some t) :
    t.shared.addr = s.shared.addr ∧ t.shared.maxSize = s.shared.maxSize := by
  have hn : ∀ {u v : Sys} {w : Option ℕ}, Notified u w v →
      v.shared.addr = u.shared.addr ∧ v.shared.maxSize = u.shared.maxSize := by
    intro u v w h
    cases h <;> exact ⟨rfl, rfl⟩
  cases stepped_of_step hs with
  | run _ ha => cases ha <;> exact ⟨rfl, rfl⟩
  | notify _ h =>
    have := hn h
    exact this
  | cancelWoken _ h =>
    have := hn h
    exact this
  | _ => exact ⟨rfl, rfl⟩

section Runs

variable {addr : String} {m : ℕ} {es : List Ev} {P : Sys → Ev → Prop}

theorem run_const (h : Run step P (Sys.new addr m) es s) : s.shared.addr = addr ∧ s.shared.maxSize = m := by
  refine h.invariant (I := fun u => u.shared.addr = addr ∧ u.shared.maxSize = m) ⟨rfl, rfl⟩ fun u e v hu _ hs => ?_
  obtain ⟨h1, h2⟩ := step_const hs
  exact ⟨h1.trans hu.1, h2.trans hu.2⟩

theorem run_placed (h : Run step P (Sys.new addr m) es s) : Placed s :=
  h.invariant (placed_new addr m) fun _ _ _ hu _ hs => placed_step hu hs

theorem run_ledger (h : Run step NoLeak (Sys.new addr m) es s) : Ledger 0 s := by
  refine h.invariant (ledger_new addr m) fun u e v hu hP hs => ?_
  have := ledger_step hu hs
  rwa [show leak u e = 0 from hP] at this

/-- The slots lost in a run are none exactly when no future was dropped with one. -/
theorem run_ledger_lost (h : Run step Any (Sys.new addr m) es s) :
    ∃ k, Ledger k s ∧ (k = 0 ↔ Run step NoLeak (Sys.new addr m) es s) :=
  h.counted (ledger_new addr m) fun _ _ _ _ hk hs => ledger_step hk hs

end Runs

/-! ## The pools of a manager -/

/-- **The accounts of the pool of address `a`.** -/
structure Accounted (a : String) (m : ℕ) (s : Sys) : Prop where
  /-- an open connection is idle in the pool of its address, or lent to one request, and nothing else is anywhere -/
  onePlace : ∀ c, places c s = if c ∈ s.shared.sockets then 1 else 0
  address : ∀ c ∈ s.shared.sockets, c.addr = a
  outstanding : s.shared.outstanding = s.shared.idle.length + tally Pc.lends s.tasks + tally Pc.dials s.tasks +
    tally Pc.closes s.tasks + tally Pc.refused s.tasks
  bound : s.shared.idle.length + tally Pc.lends s.tasks + tally Pc.dials s.tasks ≤ m
  /-- `fetch_sub` never wraps -/
  noWrap : ∀ (i : ℕ) (pc : Pc), s.tasks[i]? = some pc → pc.subtracts = true → 0 < s.shared.outstanding
  /-- the overflow branch of `put` is never taken -/
  noOverflow : ∀ (i : ℕ) (c : Conn), s.tasks[i]? = some (.putLock c) → s.shared.idle.length < s.shared.maxSize

theorem accounted_of_run {a : String} {m : ℕ} {es : List Ev} (h : Run step NoLeak (Sys.new a m) es s) :
    Accounted a m s := by
  have hp := run_placed h
  have hl := run_ledger h
  obtain ⟨haddr, hmax⟩ := run_const h
  refine ⟨fun c => ?_, fun c hc => (hp.fresh c hc).1.trans haddr, hl.count, ?_, fun i pc hi => hl.pos_of_subtracts hi,
    fun i c hi => hl.room_of_putLock hi⟩
  · rw [← hp.once c]
    split_ifs with hc
    · exact List.count_eq_one_of_mem hp.nodup hc
    · exact List.count_eq_zero_of_not_mem hc
  · have := hl.bound
    unfold slots at this
    omega

/-- **Pool accounting.**  In every interleaving of the requests on the pools of `Manager::new(addrs, m)`, no future
being dropped, the accounts of every pool are right. -/
theorem manager_accounting (addrs : List String) (m : ℕ) {es : List (String × Ev)} {M : Manager}
    (h : Run Manager.step (famP NoCancel) (Manager.new addrs m) es M) (a : String) :
    (a ∈ addrs → (M a).isSome) ∧ ∀ s, M a = some s → Accounted a m s := by
  refine ⟨fun ha => h.family_isSome (by simp [Manager.new_eq, ha]), fun s hs => ?_⟩
  obtain ⟨s₀, h₀, hrun⟩ := h.family a hs
  rw [Manager.new_eq] at h₀
  split_ifs at h₀
  obtain rfl := Option.some.inj h₀
  exact accounted_of_run (hrun.mono fun _ _ => noLeak_of_noCancel)

/-- Two requests race for the one slot of `u`, while a third one dials `v`. -/
def raceEvents : List (String × Ev) :=
  [("u", .call), ("u", .call), ("v", .call), ("u", .run 0 .lock), ("u", .run 1 .lock), ("v", .run 0 .lock),
   ("u", .run 0 .fetchAdd), ("u", .run 1 .fetchAdd), ("u", .run 0 .dialOk), ("u", .run 0 (.put true)),
   ("v", .run 0 .fetchAdd), ("u", .run 0 .lock)]

theorem manager_accounting_race :
    ∃ M s, Run Manager.step (famP NoCancel) (Manager.new ["u", "v", "u"] 1) raceEvents M ∧ M "u" = some s ∧
      s.shared.outstanding = 2 ∧ Accounted "u" 1 s := by
  have hrun : Run Manager.step (famP NoCancel) (Manager.new ["u", "v", "u"] 1) raceEvents _ :=
    Run.of_exec_get (by decide)
  exact ⟨_, _, hrun, rfl, by decide, (manager_accounting _ _ hrun "u").2 _ rfl⟩

/-! ## Dropped futures -/

/-- A connection stays lent to a live request until the request has given its slot back. -/
def Pc.lentSlot (pc : Pc) : ℕ := pc.lends + pc.closes

/-- What `outstanding` should count: idle connections, and what live requests hold. -/
def Conserved (s : Sys) : Prop :=
  s.shared.outstanding = s.shared.idle.length + tally Pc.lentSlot s.tasks + tally Pc.dials s.tasks +
    tally Pc.refused s.tasks

def Quiet (s : Sys) : Prop := ∀ pc ∈ s.tasks, pc = .ended

theorem tally_lentSlot (ts : List Pc) : tally Pc.lentSlot ts = tally Pc.lends ts + tally Pc.closes ts := tally_add

theorem conserved_iff {k : ℕ} (h : Ledger k s) : Conserved s ↔ k = 0 := by
  have := h.count
  unfold slots at this
  unfold Conserved
  rw [tally_lentSlot]
  omega

theorem tally_quiet (h : Quiet s) {f : Pc → ℕ} (hf : f .ended = 0) : tally f s.tasks = 0 :=
  tally_eq_zero_iff.2 fun pc hpc => by rw [h pc hpc, hf]

theorem serve_of_idle (hout : s.shared.outstanding = s.shared.idle.length) (hmax : 1 ≤ s.shared.maxSize) :
    ∃ es t c, Run step NoCancel s es t ∧ t.tasks[s.tasks.length]? = some (.lent c) := by
  have hat : ∀ pc : Pc, (s.tasks ++ [pc])[s.tasks.length]? = some pc := fun pc => by simp
  have hcall : Run step NoCancel s [.call] ⟨s.shared, s.tasks ++ [.getLock]⟩ := Run.one trivial rfl
  have hrun : ∀ (p q : Pool) (pc pc' : Pc) (a : Act), act p pc a = some (q, pc') →
      Run step NoCancel ⟨p, s.tasks ++ [pc]⟩ [.run s.tasks.length a] ⟨q, s.tasks ++ [pc']⟩ := by
    intro p q pc pc' a ha
    have hset : (s.tasks ++ [pc]).set s.tasks.length pc' = s.tasks ++ [pc'] := by simp
    exact Run.one trivial (by simp only [step, runLocal, hat, Option.bind_some, ha, Option.map_some, hset])
  cases hidle : s.shared.idle with
  | cons c rest =>
    have h1 := hrun s.shared { s.shared with idle := rest } .getLock (.lent c) .lock (by simp [act, hidle])
    exact ⟨_, _, c, hcall.trans h1, hat _⟩
  | nil =>
    have hlt : s.shared.outstanding < s.shared.maxSize := by
      rw [hout, hidle]
      exact hmax
    have h1 := hrun s.shared s.shared .getLock .getAdd .lock (by simp [act, hidle])
    have h2 := hrun s.shared { s.shared with outstanding := s.shared.outstanding + 1 } .getAdd .getDial .fetchAdd
      (by simp [act, hlt])
    have h3 := hrun { s.shared with outstanding := s.shared.outstanding + 1 } _ .getDial _ .dialOk rfl
    exact ⟨_, _, _, ((hcall.trans h1).trans h2).trans h3, hat _⟩

/-- **No slot is lost exactly when no future is dropped with one.**  In every run in which futures are dropped at any
await point, `outstanding` is right at the end exactly when none of them was dialing or held a connection; and when it
is right and no request is live, everything outstanding is idle and the next `get` is served. -/
theorem cancel_conserved_iff {addr : String} {m : ℕ} {es : List Ev} (h : Run step Any (Sys.new addr m) es s) :
    (Conserved s ↔ Run step NoLeak (Sys.new addr m) es s) ∧
    (Run step NoLeak (Sys.new addr m) es s → Quiet s →
      s.shared.outstanding = s.shared.idle.length ∧
      (1 ≤ m → ∃ fs t c, Run step NoCancel s fs t ∧ t.tasks[s.tasks.length]? = some (.lent c))) := by
  obtain ⟨k, hk, hiff⟩ := run_ledger_lost h
  refine ⟨(conserved_iff hk).trans hiff, fun hrun hq => ?_⟩
  obtain rfl := hiff.2 hrun
  have hout : s.shared.outstanding = s.shared.idle.length := by
    have hc := (conserved_iff hk).2 rfl
    unfold Conserved at hc
    rw [tally_quiet hq rfl, tally_quiet hq rfl, tally_quiet hq rfl] at hc
    omega
  refine ⟨hout, fun hm => serve_of_idle hout ?_⟩
  rw [(run_const h).2]
  exact hm

/-- A request is dropped while it waits for the lock of `get`, and another one dials. -/
theorem cancel_conserved_free :
    ∃ s, Run step NoLeak (Sys.new "u" 1) [.call, .call, .cancel 1 none, .run 0 .lock, .run 0 .fetchAdd] s ∧
      Conserved s := by
  have hrun : Run step NoLeak (Sys.new "u" 1) [.call, .call, .cancel 1 none, .run 0 .lock, .run 0 .fetchAdd] _ :=
    Run.of_exec_get (by decide)
  exact ⟨_, hrun, (cancel_conserved_iff (hrun.mono fun _ _ _ => trivial)).1.2 hrun⟩

/-- The only request is dropped while it dials: nobody is live, nothing is idle, and the only slot is gone. -/
theorem cancel_loses_slot :
    ¬ ∀ (addr : String) (m : ℕ) (es : List Ev) (s : Sys), Run step Any (Sys.new addr m) es s →
      Conserved s ∧ (Quiet s → s.shared.outstanding = s.shared.idle.length) := by
  intro h
  have hrun : Run step Any (Sys.new "u" 1) [.call, .run 0 .lock, .run 0 .fetchAdd, .cancel 0 none] _ :=
    Run.of_exec_get (by decide)
  exact absurd (h _ _ _ _ hrun).1 (by unfold Conserved; decide)

end ServiceProxy.Upstream
