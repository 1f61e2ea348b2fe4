import ServiceProxy.Go.Pool
import ServiceProxy.Lib.Exchange
import ServiceProxy.Lib.Lending

/-!
# The Go pool lends a connection to one request at a time

Every open connection is in one place: in the channel, or in the hands of one request (`Placed`).  A connection reaches a
`Get` through the channel, from a dial, or from the hands of a healthy `Put`, so the Go pool has the discipline that
exchanges over its connections need.
-/

namespace ServiceProxy.Go

open ServiceProxy.Lib ServiceProxy.Lib.Exchange

/-! ## Where the connections are -/

def Pc.conn? : Pc → Option Conn
  | .lent c | .putSelect c | .putClose c => some c
  | _ => none

/-- **Every open connection is in exactly one place**, and it was dialed by the pool. -/
structure Placed (s : Sys) : Prop where
  place : InOnePlace Pc.conn? s.shared.sockets s.shared.conns s.tasks
  fresh : ∀ c ∈ s.shared.sockets, c.addr = s.shared.addr ∧ c.id < s.shared.dialed

theorem placed_new (addr : String) (maxSize : ℕ) : Placed (Sys.new addr maxSize) :=
  ⟨⟨List.nodup_nil, fun _ => rfl⟩, by simp [Sys.new, Pool.new]⟩

variable {s t : Sys} {e : Ev} {i j : ℕ} {c : Conn} {pc pc' : Pc}

theorem placed_act {a : Act} {p : Pool} (h : Placed s) (hi : s.tasks[i]? = some pc) (ha : Acted s.shared pc a p pc') :
    Placed ⟨p, s.tasks.set i pc'⟩ := by
  obtain ⟨hplace, hfresh⟩ := h
  cases ha with
  | tryRecv hconns | selectRecv hconns => exact ⟨hplace.take hi (.of_eq hconns) rfl rfl, hfresh⟩
  | dialOk =>
    have hnew : (⟨s.shared.addr, s.shared.dialed⟩ : Conn) ∉ s.shared.sockets := fun hm => by
      have := (hfresh _ hm).2
      simp at this
    refine ⟨hplace.make hi hnew rfl rfl, fun d hd => ?_⟩
    rcases List.mem_cons.1 hd with rfl | hd
    · exact ⟨rfl, Nat.lt_succ_self _⟩
    · obtain ⟨h1, h2⟩ := hfresh d hd
      exact ⟨h1, Nat.lt_succ_of_lt h2⟩
  | close => exact ⟨hplace.destroy hi rfl rfl, fun d hd => hfresh d (List.mem_of_mem_erase hd)⟩
  | _ => exact ⟨hplace.keep hi rfl, hfresh⟩

/-- **Every step keeps every connection in one place.** -/
theorem placed_step (h : Placed s) (hs : step s e = some t) : Placed t := by
  cases stepped_of_step hs with
  | call => exact ⟨h.place.come rfl, h.fresh⟩
  | run hi ha => exact placed_act h hi ha
  | @handOff i w c hi hw =>
    -- as if it went through the channel
    have hgiven : InOnePlace Pc.conn? s.shared.sockets (c :: s.shared.conns) (s.tasks.set i .ended) :=
      h.place.give hi (.refl _) rfl rfl
    exact ⟨hgiven.take hw (.refl _) rfl rfl, h.fresh⟩
  | @enqueue i c hi => exact ⟨h.place.give hi (List.perm_append_singleton c _) rfl rfl, h.fresh⟩
  | overflow hi => exact ⟨h.place.keep hi rfl, h.fresh⟩

/-! ## The discipline -/

/-- The connection that `Get` returned to the request. -/
def Pc.lent? : Pc → Option Conn
  | .lent c => some c
  | _ => none

def Pc.gets : Pc → Bool
  | .getTry | .getAdd | .getDial | .getDialErr | .getSub | .getSelect | .getBlocked => true
  | _ => false

/-- The pool, as the calls of `ForwardPooled` use it. -/
def pooling : Pooling Sys Ev Conn where
  step := step
  user s i := (s.tasks[i]?).bind Pc.lent?
  idle s := s.shared.conns
  put i healthy := .run i (.put healthy)
  isPut
    | .run _ (.put _) => true
    | _ => false

/-- What the requests and the pool say about connections: one on its way to the channel is being returned. -/
def lender : Lender Pool Pc Conn where
  idle := Pool.conns
  unborn p c := c.addr ≠ p.addr ∨ p.dialed ≤ c.id
  gets := Pc.gets
  lent? := Pc.lent?
  returns?
    | .putSelect c => some c
    | _ => none

theorem moved_recv {put : Prop} {rest : List Conn} (hi : s.tasks[i]? = some pc) (hconns : s.shared.conns = c :: rest)
    (hgets : pc.gets = true) : lender.Moved put s i pc { s.shared with conns := rest } (.lent c) := by
  have hmem : ∀ d ∈ c :: rest, lender.Free s d := fun d hd => .inl (show d ∈ s.shared.conns from hconns ▸ hd)
  refine ⟨hi, fun d hd => hmem d (List.mem_cons_of_mem _ hd), fun _ hd => hd, .inr hgets, fun d hd => ?_, nofun⟩
  obtain rfl := Option.some.inj hd
  exact ⟨hgets, hmem c List.mem_cons_self⟩

theorem moved_send {put : Prop} {conns : List Conn} (hi : s.tasks[i]? = some (.putSelect c))
    (hconns : ∀ d ∈ conns, d = c ∨ d ∈ s.shared.conns) :
    lender.Moved put s i (.putSelect c) { s.shared with conns } .ended := by
  refine ⟨hi, fun d hd => ?_, fun _ hd => hd, .inl rfl, nofun, nofun⟩
  rcases hconns d hd with rfl | hd
  · exact .inr (.inl ⟨_, List.mem_of_getElem? hi, rfl⟩)
  · exact .inl hd

theorem moved_acted {a : Act} {p : Pool} (hi : s.tasks[i]? = some pc) (ha : Acted s.shared pc a p pc') :
    lender.Moved (a = .put true) s i pc p pc' := by
  cases ha with
  | tryRecv hconns | selectRecv hconns => exact moved_recv hi hconns rfl
  | dialOk =>
    refine ⟨hi, fun _ hc => .inl hc, fun c hc => hc.imp_right Nat.le_of_succ_le, .inr rfl, fun c hc => ?_, nofun⟩
    obtain rfl := Option.some.inj hc
    exact ⟨rfl, .inr (.inr (.inr (Nat.le_refl _)))⟩
  | putHealthy => exact ⟨hi, fun _ hc => .inl hc, fun _ hc => hc, .inl rfl, nofun, fun _ hc => ⟨hc, rfl⟩⟩
  | dialSub | selectDone | blockedDone | putBroken | close | putSub => exact .quiet hi rfl rfl (.inl rfl) rfl rfl
  | _ => exact .quiet hi rfl rfl (.inr rfl) rfl rfl

/-- **A step lends only what is free, and frees only what is put back as healthy.** -/
theorem keeps_step (hs : step s e = some t) : lender.Keeps (fun i => e = pooling.put i true) s t := by
  cases stepped_of_step hs with
  | call => exact Lender.keeps_come rfl rfl
  | @run i a pc pc' p hi ha =>
    have hmoved := moved_acted hi ha
    exact Lender.Moved.keeps { hmoved with returns := fun c hc => (hmoved.returns c hc).imp_right (congrArg (Ev.run i)) }
  | @handOff i w c hi hw =>
    -- as if it went through the channel
    have hgiven : lender.Keeps (fun _ => False) s
        ⟨{ s.shared with conns := c :: s.shared.conns }, s.tasks.set i .ended⟩ :=
      (moved_send hi fun d hd => List.mem_cons.1 hd).keeps
    exact hgiven.trans (Lender.Moved.keeps (moved_recv hw rfl rfl))
  | enqueue hi => exact (moved_send hi fun d hd => (List.mem_append.1 hd).symm.imp_left List.mem_singleton.1).keeps
  | overflow hi => exact (Lender.Moved.quiet hi rfl rfl (.inl rfl) rfl rfl).keeps

theorem conn?_of_lent? (h : pc.lent? = some c) : pc.conn? = some c := by
  cases pc <;> first | exact h | cases h

theorem conn?_of_returns? (h : lender.returns? pc = some c) : pc.conn? = some c ∧ pc.lent? = none := by
  cases pc <;> first | exact ⟨h, rfl⟩ | cases h

/-- **The pool keeps the discipline.** -/
def discipline : Discipline pooling where
  Inv := Placed
  getting := lender.Getting
  Free := lender.Free
  inv_step := placed_step
  free_of_idle := .inl
  exclusive h hi hj := Lender.user_unique (L := lender) h.place (fun _ _ => conn?_of_lent?) hi hj
  not_free h hi := by
    refine Lender.not_free (L := lender) h.place (fun c hc hunborn => ?_) (fun _ _ => conn?_of_lent?)
      (fun _ _ => conn?_of_returns?) hi
    obtain ⟨haddr, hid⟩ := h.fresh c hc
    exact hunborn.elim (fun hne => hne haddr) (by omega)
  not_getting hi hget := by
    obtain ⟨pc, hpc, hlent⟩ := Lender.user_eq_some (L := lender).1 hi
    have hgets := hget pc hpc
    cases pc with
    | lent => exact Bool.false_ne_true hgets
    | _ => cases hlent
  free_step _ hs h := (keeps_step hs).free _ h
  user_step _ hs h := (keeps_step hs).user _ _ h
  getting_step hs h := (keeps_step hs).getting _ h
  isPut_put _ _ := rfl
  put_inj h := by
    simp only [pooling, Ev.run.injEq, Act.put.injEq] at h
    exact h

end ServiceProxy.Go
