import ServiceProxy.Lib.Transition
import ServiceProxy.Lib.Threads
import ServiceProxy.Upstream.Balancer

/-!
# The request handlers and their tokens

The five handlers of the Rust proxy have one shape: read the request, `selector.next()`, `forward(..).await`,
`selector.release(tok)`, answer.  They differ in which of these await, and in who owns their future:

* `handle_conn` (`proxy_http.rs`) runs in a worker or a spawned task; it reads the request and writes the response;
* `handle_hyper_request` (`proxy_http.rs`) is owned by hyper; it collects the body and returns its response;
* `GrpcProxy::echo` (`grpc_proxy.rs`) is owned by tonic; it gets a decoded message and returns its response;
* `handle_quic_stream` (`quic_proxy/mod.rs`) runs in a spawned task; it reads a frame and, on success, writes one;
* `handle_http3_request` (`quic_proxy/mod.rs`) runs in a spawned task; it receives the body and sends the response.

Requests run over one counting selector, one atomic operation or one await at a time.  Which upstream `next` chooses is
left open: any index of `addrs`.  A request records the token `next` returned and the tokens it called `release` with.

`released_once_iff`: every request that ended has released its token exactly once, unless its future was dropped in
`forward(..).await`.
-/

namespace ServiceProxy.Handlers

open ServiceProxy.Lib ServiceProxy.Upstream

/-! ## The code -/

inductive Handler
  | handleConn | handleHyperRequest | echo | handleQuicStream | handleHttp3Request
  deriving DecidableEq, Repr

/-- The handler awaits the request before it selects an upstream. -/
def Handler.reads : Handler → Bool
  | .echo => false
  | _ => true

/-- The future of the handler is owned by hyper or tonic, which drop it when the client resets its stream. -/
def Handler.owned : Handler → Bool
  | .handleHyperRequest | .echo => true
  | _ => false

/-- The handler awaits the write of its answer, after `forward` succeeded or failed. -/
def Handler.writes (ok : Bool) : Handler → Bool
  | .handleConn | .handleHttp3Request => true
  | .handleQuicStream => ok
  | .handleHyperRequest | .echo => false

/-- Where a request stands: awaiting its request, in `next` before the choice, in `pick` before each of its two
`fetch_add`s, in `forward(..).await`, before `release`, awaiting the write of its answer, or over. -/
inductive Pc
  | read | next | pickTotal (idx : ℕ) | pickInflight (idx : ℕ)
  | forward (tok : ℤ) | release (tok : ℤ) (ok : Bool) | write | ended
  deriving DecidableEq, Repr

/-- A request: its handler, where it stands, the token `next` returned, and the arguments of its calls of `release`. -/
structure Req where
  handler : Handler
  pc : Pc
  token : Option ℤ
  released : List ℤ
  deriving DecidableEq, Repr

def Req.new (h : Handler) : Req :=
  { handler := h, pc := if h.reads then .read else .next, token := none, released := [] }

inductive Act
  | readOk | readErr | choose (idx : ℕ) | fetchAdd | forwarded (ok : Bool) | release | written (ok : Bool)
  deriving DecidableEq, Repr

def act (c : Counters) (r : Req) : Act → Option (Counters × Req)
  | .readOk => if r.pc = .read then some (c, { r with pc := .next }) else none
  -- every handler returns before `next` when the request cannot be read
  | .readErr => if r.pc = .read then some (c, { r with pc := .ended }) else none
  | .choose idx => if r.pc = .next ∧ idx < c.addrs.length then some (c, { r with pc := .pickTotal idx }) else none
  | .fetchAdd =>
    match r.pc with
    | .pickTotal idx => some ({ c with total := fetchAddAt c.total idx 1 }, { r with pc := .pickInflight idx })
    | .pickInflight idx =>
      some ({ c with inflight := fetchAddAt c.inflight idx 1 },
        { r with pc := .forward (asI32 idx), token := some (asI32 idx) })
    | _ => none
  | .forwarded ok =>
    match r.pc with
    | .forward tok => some (c, { r with pc := .release tok ok })
    | _ => none
  | .release =>
    match r.pc with
    | .release tok ok =>
      some (c.release tok,
        { r with pc := if r.handler.writes ok then .write else .ended, released := r.released ++ [tok] })
    | _ => none
  | .written _ => if r.pc = .write then some (c, { r with pc := .ended }) else none

abbrev Sys := Threads Counters Req

def Sys.new (addrs : List String) : Sys := ⟨Counters.new addrs, []⟩

inductive Ev
  | arrive (h : Handler)
  | run (i : ℕ) (a : Act)
  | drop (i : ℕ)
  deriving DecidableEq, Repr

/-- One step.  `drop`: hyper or tonic drops the future of request `i` at an await point. -/
def step (s : Sys) : Ev → Option Sys
  | .arrive h => some ⟨s.shared, s.tasks ++ [Req.new h]⟩
  | .run i a => runLocal act s i a
  | .drop i =>
    match s.tasks[i]? with
    | some r =>
      match r.handler.owned, r.pc with
      | true, .read | true, .forward _ => some ⟨s.shared, s.tasks.set i { r with pc := .ended }⟩
      | _, _ => none
    | none => none

/-! ## What a step can do -/

inductive Acted (c : Counters) (r : Req) : Act → Counters → Req → Prop
  | readOk : r.pc = .read → Acted c r .readOk c { r with pc := .next }
  | readErr : r.pc = .read → Acted c r .readErr c { r with pc := .ended }
  | choose {idx : ℕ} : r.pc = .next → idx < c.addrs.length → Acted c r (.choose idx) c { r with pc := .pickTotal idx }
  | pickTotal {idx : ℕ} : r.pc = .pickTotal idx →
      Acted c r .fetchAdd { c with total := fetchAddAt c.total idx 1 } { r with pc := .pickInflight idx }
  | pickInflight {idx : ℕ} : r.pc = .pickInflight idx →
      Acted c r .fetchAdd { c with inflight := fetchAddAt c.inflight idx 1 }
        { r with pc := .forward (asI32 idx), token := some (asI32 idx) }
  | forwarded {tok : ℤ} {ok : Bool} : r.pc = .forward tok → Acted c r (.forwarded ok) c { r with pc := .release tok ok }
  | release {tok : ℤ} {ok : Bool} : r.pc = .release tok ok →
      Acted c r .release (c.release tok)
        { r with pc := if r.handler.writes ok then .write else .ended, released := r.released ++ [tok] }
  | written {ok : Bool} : r.pc = .write → Acted c r (.written ok) c { r with pc := .ended }

/-- **Inversion of `act`.** -/
theorem acted_of_act {c c' : Counters} {r r' : Req} {a : Act} (h : act c r a = some (c', r')) : Acted c r a c' r' := by
  cases a <;> simp only [act] at h
  case fetchAdd | forwarded | release =>
    split at h <;> simp only [Option.some.injEq, Prod.mk.injEq, reduceCtorEq] at h <;> obtain ⟨rfl, rfl⟩ := h
    all_goals constructor; assumption
  case choose =>
    split at h
    · rename_i hc
      simp only [Option.some.injEq, Prod.mk.injEq] at h
      obtain ⟨rfl, rfl⟩ := h
      exact .choose hc.1 hc.2
    · cases h
  all_goals
    split at h <;> simp only [Option.some.injEq, Prod.mk.injEq, reduceCtorEq] at h
    obtain ⟨rfl, rfl⟩ := h
    constructor; assumption

inductive Stepped (s : Sys) : Ev → Sys → Prop
  | arrive {h : Handler} : Stepped s (.arrive h) ⟨s.shared, s.tasks ++ [Req.new h]⟩
  | run {i : ℕ} {a : Act} {r r' : Req} {c : Counters} : s.tasks[i]? = some r → Acted s.shared r a c r' →
      Stepped s (.run i a) ⟨c, s.tasks.set i r'⟩
  | dropRead {i : ℕ} {r : Req} : s.tasks[i]? = some r → r.pc = .read →
      Stepped s (.drop i) ⟨s.shared, s.tasks.set i { r with pc := .ended }⟩
  | dropForward {i : ℕ} {r : Req} {tok : ℤ} : s.tasks[i]? = some r → r.pc = .forward tok →
      Stepped s (.drop i) ⟨s.shared, s.tasks.set i { r with pc := .ended }⟩

/-- **Inversion of `step`.** -/
theorem stepped_of_step {s t : Sys} {e : Ev} (h : step s e = some t) : Stepped s e t := by
  cases e with
  | arrive =>
    obtain rfl : _ = t := by simpa [step] using h
    exact .arrive
  | run i a =>
    obtain ⟨r, c, r', hi, ha, rfl⟩ := runLocal_eq_some h
    exact .run hi (acted_of_act ha)
  | drop i =>
    simp only [step] at h
    split at h
    · split at h
      · obtain rfl := Option.some.inj h
        exact .dropRead ‹_› ‹_›
      · obtain rfl := Option.some.inj h
        exact .dropForward ‹_› ‹_›
      · cases h
    · cases h

/-! ## The tokens of the requests -/

/-- The request holds the token `k`: it was counted in flight and has not been released. -/
def Req.holds (k : ℕ) (r : Req) : ℕ :=
  match r.pc with
  | .forward tok | .release tok _ => if tok = k then 1 else 0
  | _ => 0

/-- The request is over and has not released the token it had exactly once. -/
def Req.missed (r : Req) : ℕ := if r.pc = .ended ∧ r.released ≠ r.token.toList then 1 else 0

/-- What a request has taken and released, at each place, when `next` chooses only upstreams in `p`. -/
def Req.Ok (p : ℕ → Prop) (r : Req) : Prop :=
  match r.pc with
  | .read | .next => r.token = none ∧ r.released = []
  | .pickTotal idx | .pickInflight idx => p idx ∧ r.token = none ∧ r.released = []
  | .forward tok | .release tok _ => (∃ idx, p idx ∧ tok = asI32 idx) ∧ r.token = some tok ∧ r.released = []
  | .write => ∃ tok, r.token = some tok ∧ r.released = [tok]
  | .ended => r.released = r.token.toList ∨ r.token.isSome ∧ r.released = []

def leak (s : Sys) : Ev → ℕ
  | .drop i =>
    match s.tasks[i]? with
    | some r =>
      match r.pc with
      | .forward _ => 1
      | _ => 0
    | none => 0
  | _ => 0

def NoLeak (s : Sys) (e : Ev) : Prop := leak s e = 0

/-- The index `next` chooses is an `i32`. -/
def FitsI32 (_ : Sys) : Ev → Prop
  | .run _ (.choose idx) => idx < 2 ^ 31
  | _ => True

instance (s : Sys) (e : Ev) : Decidable (NoLeak s e) := inferInstanceAs (Decidable (leak s e = 0))

instance (s : Sys) (e : Ev) : Decidable (FitsI32 s e) := by unfold FitsI32; split <;> infer_instance

theorem Req.ok_new (p : ℕ → Prop) (h : Handler) : (Req.new h).Ok p := by
  cases h <;> simp [Req.new, Req.Ok, Handler.reads]

section Step

variable {p : ℕ → Prop} {c c' : Counters} {r r' : Req} {a : Act} {s t : Sys} {e : Ev}

theorem Acted.addrs (ha : Acted c r a c' r') : c'.addrs = c.addrs := by
  cases ha with
  | release => unfold Counters.release; split_ifs <;> rfl
  | _ => rfl

theorem Acted.size (ha : Acted c r a c' r') : c'.inflight.length = c.inflight.length := by
  cases ha with
  | release => unfold Counters.release; split_ifs <;> simp
  | pickInflight => simp
  | _ => rfl

theorem Acted.ok (ha : Acted c r a c' r') (hp : ∀ idx, a = .choose idx → idx < c.addrs.length → p idx)
    (h : r.Ok p) : r'.Ok p := by
  cases ha with
  | readOk hpc | readErr hpc | forwarded hpc | pickTotal hpc => simp_all [Req.Ok]
  | @choose idx hpc hidx =>
    simp only [Req.Ok, hpc] at h ⊢
    exact ⟨hp idx rfl hidx, h⟩
  | @pickInflight idx hpc =>
    simp only [Req.Ok, hpc] at h ⊢
    exact ⟨⟨idx, h.1, rfl⟩, trivial, h.2.2⟩
  | @release tok ok hpc =>
    simp only [Req.Ok, hpc] at h
    obtain ⟨-, htok, hrel⟩ := h
    simp only [Req.Ok]
    split_ifs <;> simp [htok, hrel]
  | written hpc =>
    simp only [Req.Ok, hpc] at h ⊢
    obtain ⟨tok, htok, hrel⟩ := h
    exact .inl (by simp [htok, hrel])

theorem Acted.missed (ha : Acted c r a c' r') (h : r.Ok p) : r'.missed = r.missed := by
  cases ha with
  | readOk hpc | readErr hpc | choose hpc | forwarded hpc | pickTotal hpc | pickInflight hpc =>
    simp_all [Req.Ok, Req.missed]
  | @release tok ok hpc =>
    simp only [Req.Ok, hpc] at h
    obtain ⟨-, htok, hrel⟩ := h
    simp [Req.missed, hpc, htok, hrel]
  | written hpc =>
    simp only [Req.Ok, hpc] at h
    obtain ⟨tok, htok, hrel⟩ := h
    simp [Req.missed, hpc, htok, hrel]

theorem Acted.count (ha : Acted c r a c' r') (hp : ∀ idx, p idx → idx < c.inflight.length ∧ idx < 2 ^ 31)
    (h : r.Ok p) (k : ℕ) :
    c'.inflight.getD k 0 + (r.holds k : ℤ) = c.inflight.getD k 0 + (r'.holds k : ℤ) := by
  cases ha with
  | readOk hpc | readErr hpc | choose hpc | forwarded hpc | pickTotal hpc | written hpc =>
    simp [Req.holds, hpc]
  | @pickInflight idx hpc =>
    simp only [Req.Ok, hpc] at h
    obtain ⟨hlen, h31⟩ := hp idx h.1
    rw [getD_fetchAddAt hlen, asI32_eq h31]
    simp only [Req.holds, hpc]
    split_ifs <;> omega
  | @release tok ok hpc =>
    simp only [Req.Ok, hpc] at h
    obtain ⟨⟨idx, hidx, htok⟩, -, -⟩ := h
    obtain ⟨hlen, h31⟩ := hp idx hidx
    rw [asI32_eq h31] at htok
    subst htok
    have hout : Req.holds k { r with pc := if r.handler.writes ok then .write else .ended,
                                     released := r.released ++ [(idx : ℤ)] } = 0 := by
      unfold Req.holds
      split_ifs <;> rfl
    rw [hout]
    simp only [Counters.release, Int.natCast_nonneg, if_true, Int.toNat_natCast, getD_fetchAddAt hlen]
    simp only [Req.holds, hpc]
    split_ifs <;> omega

theorem step_addrs (hs : step s e = some t) : t.shared.addrs = s.shared.addrs := by
  cases stepped_of_step hs with
  | run _ ha => exact ha.addrs
  | _ => rfl

theorem step_ok (hp : ∀ i idx, e = .run i (.choose idx) → idx < s.shared.addrs.length → p idx)
    (hs : step s e = some t) (h : ∀ r ∈ s.tasks, r.Ok p) : ∀ r ∈ t.tasks, r.Ok p := by
  cases stepped_of_step hs with
  | arrive => exact forall_mem_concat h (Req.ok_new _ _)
  | @run i a r r' c hi ha =>
    refine forall_mem_set h ?_ i
    exact ha.ok (fun idx ha => hp i idx (by rw [ha])) (h r (List.mem_of_getElem? hi))
  | @dropRead i r hi hpc | @dropForward i r tok hi hpc =>
    refine forall_mem_set h ?_ i
    have hok := h r (List.mem_of_getElem? hi)
    simp only [Req.Ok, hpc] at hok
    simp [Req.Ok, hok]

end Step

/-! ## Which requests released -/

/-- `m` requests that are over have not released the token they had. -/
structure Ledger (m : ℕ) (s : Sys) : Prop where
  ok : ∀ r ∈ s.tasks, r.Ok fun _ => True
  missed : tally Req.missed s.tasks = m

theorem ledger_new (addrs : List String) : Ledger 0 (Sys.new addrs) := ⟨by simp [Sys.new], rfl⟩

/-- A step misses a release exactly when it drops a future that holds a token. -/
theorem ledger_step {m : ℕ} {s t : Sys} {e : Ev} (h : Ledger m s) (hs : step s e = some t) :
    Ledger (m + leak s e) t := by
  refine ⟨step_ok (fun _ _ _ _ => trivial) hs h.ok, ?_⟩
  cases stepped_of_step hs with
  | @arrive g =>
    have hnew : (Req.new g).missed = 0 := by cases g <;> simp [Req.new, Req.missed, Handler.reads]
    simp [hnew, h.missed, leak]
  | @run i a r r' c hi ha =>
    have hset := tally_set Req.missed hi r'
    have hmissed := ha.missed (h.ok r (List.mem_of_getElem? hi))
    have hm := h.missed
    simp only [leak]
    omega
  | @dropRead i r hi hpc | @dropForward i r tok hi hpc =>
    have hok := h.ok r (List.mem_of_getElem? hi)
    simp only [Req.Ok, hpc] at hok
    have hset := tally_set Req.missed hi { r with pc := .ended }
    have hnew : Req.missed { r with pc := .ended } = Req.missed r + leak s (.drop i) := by
      simp [Req.missed, leak, hi, hpc, hok]
    have hm := h.missed
    simp only
    omega

/-! ## The load -/

/-- The counters show the requests in flight. -/
structure Load (addrs : List String) (s : Sys) : Prop where
  same : s.shared.addrs = addrs
  size : s.shared.inflight.length = addrs.length
  ok : ∀ r ∈ s.tasks, r.Ok fun idx => idx < addrs.length ∧ idx < 2 ^ 31
  count : ∀ k < addrs.length, s.shared.inflight.getD k 0 = tally (Req.holds k) s.tasks

theorem load_new (addrs : List String) : Load addrs (Sys.new addrs) := by
  refine ⟨rfl, by simp [Sys.new, Counters.new], by simp [Sys.new], fun k hk => ?_⟩
  simp [Sys.new, Counters.new, List.getD_eq_getElem?_getD, hk]

/-- A step that drops no future with a token keeps the counters true. -/
theorem load_step {addrs : List String} {s t : Sys} {e : Ev} (h : Load addrs s) (hleak : NoLeak s e)
    (hfits : FitsI32 s e) (hs : step s e = some t) : Load addrs t := by
  have hok : ∀ r ∈ t.tasks, r.Ok fun idx => idx < addrs.length ∧ idx < 2 ^ 31 := by
    refine step_ok (fun i idx he hidx => ?_) hs h.ok
    subst he
    exact ⟨h.same ▸ hidx, hfits⟩
  refine ⟨(step_addrs hs).trans h.same, ?_, hok, fun k hk => ?_⟩
  · cases stepped_of_step hs with
    | run _ ha => exact ha.size.trans h.size
    | _ => exact h.size
  · have hcount := h.count k hk
    cases stepped_of_step hs with
    | @arrive g =>
      have hnew : (Req.new g).holds k = 0 := by cases g <;> simp [Req.new, Req.holds, Handler.reads]
      simpa [hnew] using hcount
    | @run i a r r' c hi ha =>
      have hset := tally_set (Req.holds k) hi r'
      have hmove := ha.count (fun idx hidx => h.size ▸ hidx) (h.ok r (List.mem_of_getElem? hi)) k
      simp only at hcount hmove ⊢
      omega
    | @dropRead i r hi hpc =>
      have hset := tally_set (Req.holds k) hi { r with pc := .ended }
      simp only [Req.holds, hpc, add_zero] at hset
      exact hset ▸ hcount
    | @dropForward i r tok hi hpc => simp [NoLeak, leak, hi, hpc] at hleak

theorem tally_holds_eq_zero {s : Sys} (h : ∀ r ∈ s.tasks, r.pc = .ended) (k : ℕ) :
    tally (Req.holds k) s.tasks = 0 :=
  tally_eq_zero_iff.2 fun r hr => by simp [Req.holds, h r hr]

/-- **Every token is released exactly once, unless a future is dropped in `forward(..).await`.**  Along every interleaving
of requests over one counting selector, the requests that are over have called `release` exactly once with the token
`next` returned (and not at all if they never selected) if and only if no future was dropped while it held a token; the
counters of such a run show the requests in flight, and are all `0` once no request is live. -/
theorem released_once_iff {addrs : List String} {es : List Ev} {s : Sys} (h : Run step Any (Sys.new addrs) es s) :
    ((∀ r ∈ s.tasks, r.pc = .ended → r.released = r.token.toList) ↔ Run step NoLeak (Sys.new addrs) es s) ∧
    (Run step NoLeak (Sys.new addrs) es s → Run step FitsI32 (Sys.new addrs) es s →
      (∀ k < addrs.length, s.shared.inflight.getD k 0 = tally (Req.holds k) s.tasks) ∧
      ((∀ r ∈ s.tasks, r.pc = .ended) → ∀ x ∈ s.shared.inflight, x = 0)) := by
  constructor
  · obtain ⟨m, hm, hiff⟩ := h.counted (J := Ledger) (ledger_new addrs) fun _ _ _ _ => ledger_step
    rw [← hm.missed, tally_eq_zero_iff] at hiff
    rw [show Run step NoLeak (Sys.new addrs) es s ↔ _ from hiff.symm]
    refine forall₂_congr fun r _ => ?_
    simp [Req.missed]
  · intro hleak hfits
    have hload : Load addrs s :=
      (hleak.and hfits).invariant (load_new addrs) fun _ _ _ h hP => load_step h hP.1 hP.2
    refine ⟨hload.count, fun hended x hx => ?_⟩
    obtain ⟨k, hk, rfl⟩ := List.mem_iff_getElem.1 hx
    have := hload.count k (hload.size ▸ hk)
    simpa [tally_holds_eq_zero hended, List.getD_eq_getElem?_getD, hk] using this

/-- A `handle_conn` whose response write fails and an `echo` over two upstreams. -/
def twoRequests : List Ev :=
  [.arrive .handleConn, .arrive .echo, .run 0 .readOk, .run 1 (.choose 1), .run 0 (.choose 0), .run 1 .fetchAdd,
    .run 0 .fetchAdd, .run 1 .fetchAdd, .run 0 .fetchAdd, .run 1 (.forwarded true), .run 0 (.forwarded false),
    .run 0 .release, .run 1 .release, .run 0 (.written false)]

theorem released_once_twoRequests :
    ∃ s, Run step Any (Sys.new ["a:1", "b:1"]) twoRequests s ∧ Run step NoLeak (Sys.new ["a:1", "b:1"]) twoRequests s ∧
      (∀ r ∈ s.tasks, r.pc = .ended → r.released = r.token.toList) ∧ ∀ x ∈ s.shared.inflight, x = 0 := by
  have hleak : Run step NoLeak (Sys.new ["a:1", "b:1"]) twoRequests _ := Run.of_exec_get (by decide)
  have hfits : Run step FitsI32 (Sys.new ["a:1", "b:1"]) twoRequests _ := Run.of_exec_get (by decide)
  have hany := hleak.mono (Q := Any) fun _ _ _ => trivial
  obtain ⟨hreleased, hload⟩ := released_once_iff hany
  exact ⟨_, hany, hleak, hreleased.2 hleak, (hload hleak hfits).2 (by decide)⟩

/-- **The counter-example.**  The client of a gRPC `Echo` resets its stream while the upstream is answering: tonic drops
the future in `forward(..).await`, `release` is never called and the upstream stays counted as loaded. -/
theorem dropped_in_forward_leaks :
    ¬ ∀ (addrs : List String) (es : List Ev) (s : Sys), Run step Any (Sys.new addrs) es s →
      (∀ r ∈ s.tasks, r.pc = .ended → r.released = r.token.toList) ∧
      ((∀ r ∈ s.tasks, r.pc = .ended) → ∀ x ∈ s.shared.inflight, x = 0) := by
  intro h
  have hrun : Run step Any (Sys.new ["a:1"])
      [.arrive .echo, .run 0 (.choose 0), .run 0 .fetchAdd, .run 0 .fetchAdd, .drop 0] _ :=
    Run.of_exec_get (by decide)
  exact absurd (h _ _ _ hrun).1 (by decide)

end ServiceProxy.Handlers
