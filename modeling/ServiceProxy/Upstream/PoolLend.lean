import ServiceProxy.Upstream.PoolLedger
import ServiceProxy.Lib.Exchange
import ServiceProxy.Lib.Lending

/-!
# The pool lends a connection to one request at a time

`Placed` says that every open connection is in one place.  From this the pool has the discipline that exchanges over its
connections need: what `get` returns was idle or is new, and a connection becomes idle only after `put(conn, true)`.
-/

namespace ServiceProxy.Upstream

open ServiceProxy.Lib ServiceProxy.Lib.Exchange

def Pc.lent? : Pc → Option Conn
  | .lent c => some c
  | _ => none

def Pc.gets : Pc → Bool
  | .getLock | .getAdd | .getDial | .getDialErr | .getSub | .getNotified | .getParked | .getWoken => true
  | _ => false

/-- The pool, as the calls of `forward_pooled` use it. -/
def pooling : Pooling Sys Ev Conn where
  step := step
  user s i := (s.tasks[i]?).bind Pc.lent?
  idle s := s.shared.idle
  put i healthy := .run i (.put healthy)
  isPut
    | .run _ (.put _) => true
    | _ => false

/-- What the requests and the pool say about connections: one on its way to the idle list is being returned. -/
def lender : Lender Pool Pc Conn where
  idle := Pool.idle
  unborn p c := c.addr ≠ p.addr ∨ p.dialed ≤ c.id
  gets := Pc.gets
  lent? := Pc.lent?
  returns?
    | .putLock c => some c
    | _ => none

variable {s t : Sys} {e : Ev} {i j : ℕ} {c : Conn} {pc pc' : Pc}

/-! ## One step -/

theorem moved_acted {a : Act} {p : Pool} (hi : s.tasks[i]? = some pc) (ha : Acted s.shared pc a p pc') :
    lender.Moved (a = .put true) s i pc p pc' := by
  cases ha with
  | @pop d rest hidle =>
    have hmem : ∀ c ∈ d :: rest, lender.Free s c := fun c hc => .inl (show c ∈ s.shared.idle from hidle ▸ hc)
    refine ⟨hi, fun c hc => hmem c (List.mem_cons_of_mem _ hc), fun _ hc => hc, .inr rfl, fun c hc => ?_, nofun⟩
    obtain rfl := Option.some.inj hc
    exact ⟨rfl, hmem d List.mem_cons_self⟩
  | dialOk =>
    refine ⟨hi, fun _ hc => .inl hc, fun c hc => hc.imp_right Nat.le_of_succ_le, .inr rfl, fun c hc => ?_, nofun⟩
    obtain rfl := Option.some.inj hc
    exact ⟨rfl, .inr (.inr (.inr (Nat.le_refl _)))⟩
  | putHealthy => exact ⟨hi, fun _ hc => .inl hc, fun _ hc => hc, .inl rfl, nofun, fun _ hc => ⟨hc, rfl⟩⟩
  | push =>
    refine ⟨hi, fun c hc => ?_, fun _ hc => hc, .inl rfl, nofun, nofun⟩
    rcases List.mem_cons.1 hc with rfl | hc
    · exact .inr (.inl ⟨_, List.mem_of_getElem? hi, rfl⟩)
    · exact .inl hc
  | dialSub | putBroken | overflow | drop | putSub => exact .quiet hi rfl rfl (.inl rfl) rfl rfl
  | _ => exact .quiet hi rfl rfl (.inr rfl) rfl rfl

variable {put : ℕ → Prop}

theorem keeps_ended {p : Pool} (hi : s.tasks[i]? = some pc) (hidle : p.idle = s.shared.idle)
    (hunborn : lender.unborn p = lender.unborn s.shared) : lender.Keeps put s ⟨p, s.tasks.set i .ended⟩ :=
  (Lender.Moved.quiet hi hidle hunborn (.inl rfl) rfl rfl).keeps

theorem keeps_notified {w : Option ℕ} (h : Notified s w t) : lender.Keeps put s t := by
  cases h with
  | wake hw => exact (Lender.Moved.quiet hw rfl rfl (.inr rfl) rfl rfl).keeps
  | store => exact ⟨fun _ hc => .inl hc, fun _ _ hi => .inl hi, fun _ hi => hi⟩

/-- **A step lends only what is free, and frees only what is put back as healthy.** -/
theorem keeps_step (hs : step s e = some t) : lender.Keeps (fun i => e = pooling.put i true) s t := by
  cases stepped_of_step hs with
  | call => exact Lender.keeps_come rfl rfl
  | @run i a pc pc' p hi ha =>
    have hmoved := moved_acted hi ha
    exact Lender.Moved.keeps { hmoved with returns := fun c hc => (hmoved.returns c hc).imp_right (congrArg (Ev.run i)) }
  | notify hi hn => exact (keeps_ended hi rfl rfl).trans (keeps_notified hn)
  | cancelWoken hi hn => exact (keeps_ended hi rfl rfl).trans (keeps_notified hn)
  | cancelFree hi | cancelDial hi | cancelConn hi => exact keeps_ended hi rfl rfl

/-! ## The discipline -/

theorem conn?_of_lent? (h : pc.lent? = some c) : pc.conn? = some c := by
  cases pc <;> first | exact h | cases h

theorem conn?_of_returns? (h : lender.returns? pc = some c) : pc.conn? = some c ∧ pc.lent? = none := by
  cases pc <;> first | exact ⟨h, rfl⟩ | cases h

/-- **The pool keeps the discipline.** -/
def discipline : Discipline pooling where
  Inv := Placed
  getting := lender.Getting
  Free := lender.Free
  inv_step := placed_step
  free_of_idle := .inl
  exclusive h hi hj := Lender.user_unique (L := lender) h.inOnePlace (fun _ _ => conn?_of_lent?) hi hj
  not_free h hi := by
    refine Lender.not_free (L := lender) h.inOnePlace (fun c hc hunborn => ?_) (fun _ _ => conn?_of_lent?)
      (fun _ _ => conn?_of_returns?) hi
    obtain ⟨haddr, hid⟩ := h.fresh c hc
    exact hunborn.elim (fun hne => hne haddr) (by omega)
  not_getting hi hget := by
    obtain ⟨pc, hpc, hlent⟩ := Lender.user_eq_some (L := lender).1 hi
    have hgets := hget pc hpc
    cases pc with
    | lent => exact Bool.false_ne_true hgets
    | _ => cases hlent
  free_step _ hs h := (keeps_step hs).free _ h
  user_step _ hs h := (keeps_step hs).user _ _ h
  getting_step hs h := (keeps_step hs).getting _ h
  isPut_put _ _ := rfl
  put_inj h := by
    simp only [pooling, Ev.run.injEq, Act.put.injEq] at h
    exact h

end ServiceProxy.Upstream
