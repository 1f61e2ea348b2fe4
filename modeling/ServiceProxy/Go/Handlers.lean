import ServiceProxy.Go.Echo
import ServiceProxy.Go.HttpHandler
import ServiceProxy.Upstream.SelectorLedger

/-!
# The handlers of Go and their tokens

The four handlers of the Go proxy defer the release of the token that `selector.Next()` has returned.  Any number of requests are
served at once over one counting selector, whose operations are atomic; a request does one effect of its call after the other.

* `Tidy` — what every call does that comes to an end: behind each token that it takes stands its release;
* `Tracked` — **the invariant**: a token that is out belongs to a request that has its release still to do;
* `handlers_release` — the selector counts the tokens that are out, and they are all back when all requests are over.

A panic that the server does not recover ends the process, after the deferred calls; the runs here go on.
-/

namespace ServiceProxy.Go.Handlers

open ServiceProxy.Lib ServiceProxy.Upstream

/-! ## The requests -/

/-- What the calls of a process have in common: the library, and its forwarder. -/
structure Proxy (α β : Type) where
  server : NetServer α
  net : NetHttp β
  statusText : ℕ → List UInt8
  text : IoError → List UInt8
  forwarder : Forwarder

/-- A request at one of the four handlers, and what its call meets. -/
inductive Req
  | handleConn (q : Talk)
  | handler (q : HandlerTalk)
  | echo (addr : String) (tok : ℤ) (peer : Peer) (payload : List UInt8)
  | handleStream (q : StreamTalk)

def isOver {ε ρ : Type} : Except (Halt ε) ρ → Bool
  | .error .pending => false
  | _ => true

def Proxy.effects {α β : Type} (p : Proxy α β) : Req → List Effect
  | .handleConn q => (handleConn p.server p.net p.statusText p.forwarder q).1
  | .handler q => (handler p.net p.forwarder q).1
  | .echo addr tok peer payload => (Server.echo p.net p.text p.forwarder addr tok peer payload).1
  | .handleStream q => (handleStream p.net p.forwarder q).effects

def Proxy.ends {α β : Type} (p : Proxy α β) : Req → Bool
  | .handleConn q => isOver (handleConn p.server p.net p.statusText p.forwarder q).2
  | .handler q => isOver (handler p.net p.forwarder q).2
  | .echo addr tok peer payload => isOver (Server.echo p.net p.text p.forwarder addr tok peer payload).2
  | .handleStream q => isOver (handleStream p.net p.forwarder q).result

/-! ## The system -/

/-- What a request has left to do, whether its call comes to an end, and its call of `Next`. -/
structure Call where
  left : List Effect
  ends : Bool
  task : Option ℕ
  deriving DecidableEq, Repr

/-- The selector and the requests. -/
structure Serving where
  selector : Selectors.Sys
  calls : List Call

def Serving.new (kind : Selectors.Kind) (addrs : List String) : Serving := ⟨Selectors.Sys.new kind addrs, []⟩

/-- A request comes, its call does its next effect, a call of `Next` or `Stats` does one operation, or `Stats` is called. -/
inductive Ev
  | arrive (r : Req) | perform (i : ℕ) | select (k : ℕ) (a : Selectors.Act) | stats (reset : Bool)

/-- The next effect of a request.  `Next` is called first, and has returned when its token is held. -/
def perform (sel : Selectors.Sys) (c : Call) : Option (Selectors.Sys × Call) :=
  match c.left, c.task with
  | [], _ => none
  | .next _ :: _, none =>
    (Selectors.step64 Int.ofNat sel .next).map fun sel' => (sel', { c with task := some sel.tasks.length })
  | .next tok :: left, some k =>
    match sel.tasks[k]? with
    | some (.held _ token) => if token = tok then some (sel, { c with left }) else none
    | _ => none
  | .release _ :: _, none => none
  | .release tok :: left, some k =>
    match sel.tasks[k]? with
    | some (.held _ token) =>
      if token = tok then (Selectors.step64 Int.ofNat sel (.run k .release)).map fun sel' => (sel', { c with left }) else none
    | _ => none
  | _ :: left, _ => some (sel, { c with left })

/-- One step.  Only a request gives its token back. -/
def step {α β : Type} (p : Proxy α β) (s : Serving) : Ev → Option Serving
  | .arrive r => some { s with calls := s.calls ++ [⟨p.effects r, p.ends r, none⟩] }
  | .perform i => do
    let c ← s.calls[i]?
    let (sel, c') ← perform s.selector c
    some ⟨sel, s.calls.set i c'⟩
  | .select k a =>
    if a = .release then none
    else (Selectors.step64 Int.ofNat s.selector (.run k a)).map fun sel => { s with selector := sel }
  | .stats reset => (Selectors.step64 Int.ofNat s.selector (.stats reset)).map fun sel => { s with selector := sel }

/-! ## What a call does -/

/-- Behind each token that is taken stands its release. -/
def Tidy (fx : List Effect) : Prop := ∀ before tok behind, fx = before ++ .next tok :: behind → .release tok ∈ behind

section Tidy

variable {fx : List Effect} {e : Effect} {tok : ℤ}

theorem tidy_of_none (h : ∀ tok, .next tok ∉ fx) : Tidy fx := by
  rintro before tok behind rfl
  exact absurd (List.mem_append_right _ List.mem_cons_self) (h tok)

theorem Tidy.tail (h : Tidy (e :: fx)) : Tidy fx := by
  rintro before tok behind rfl
  exact h (e :: before) tok behind rfl

theorem Tidy.head (h : Tidy (.next tok :: fx)) : .release tok ∈ fx := h [] tok fx rfl

theorem tidy_cons (h : ∀ tok, .next tok ∉ fx) (hrelease : .release tok ∈ fx) : Tidy (.next tok :: fx) := by
  intro before tok' behind heq
  cases before with
  | nil =>
    obtain ⟨htok, rfl⟩ := List.cons.inj heq
    obtain rfl := Effect.next.inj htok
    exact hrelease
  | cons e before =>
    obtain ⟨-, rfl⟩ := List.cons.inj heq
    exact absurd (List.mem_append_right _ List.mem_cons_self) (h tok')

end Tidy

section Calls

variable {α β : Type} {p : Proxy α β}

theorem isOver_iff {ε ρ : Type} {x : Except (Halt ε) ρ} : isOver x = true ↔ x ≠ .error .pending := by
  unfold isOver
  split
  · simp
  · rename_i h
    exact iff_of_true rfl h

/-- Forwarding takes no token. -/
theorem notMem_next {net : NetHttp β} {req : Request} {fx : List Effect} {x : Except (Halt IoError) Response}
    (h : Forwarded net req fx x) (tok : ℤ) : .next tok ∉ fx :=
  fun hmem => Bool.noConfusion (h.onUpstream _ hmem)

theorem tidy_forwarded {net : NetHttp β} {req : Request} {fx : List Effect} {x : Except (Halt IoError) Response}
    (h : Forwarded net req fx x) {tok : ℤ} {behind : List Effect} (hnext : ∀ t, .next t ∉ behind) (hrelease : .release tok ∈ behind) :
    Tidy (.next tok :: (fx ++ behind)) := by
  refine tidy_cons (fun t hmem => ?_) (List.mem_append_right _ hrelease)
  rcases List.mem_append.1 hmem with hmem | hmem
  · exact notMem_next h t hmem
  · exact hnext t hmem

theorem tidy_handled {q : Talk} {fx : List Effect} {x : Except (Halt IoError) Unit}
    (h : Handled p.server p.net p.statusText p.forwarder q fx x) : Tidy (fx ++ [.hangUp]) := by
  cases h with
  | unread => exact tidy_of_none (by simp)
  | badRequest => exact tidy_of_none (by simp)
  | @replied r body fx x bytes _ _ hforward =>
    have hforwarded := forwarded p.net p.forwarder q.addr (r.upstream body) q.peer
    rw [hforward] at hforwarded
    rw [List.cons_append, List.append_assoc]
    exact tidy_forwarded hforwarded (by simp) (by simp)
  | @panicked r body fx hforward =>
    have hforwarded := forwarded p.net p.forwarder q.addr (r.upstream body) q.peer
    rw [hforward] at hforwarded
    rw [List.cons_append, List.append_assoc]
    exact tidy_forwarded hforwarded (by simp) (by simp)

theorem tidy_handleConn {q : Talk} (h : (handleConn p.server p.net p.statusText p.forwarder q).2 ≠ .error .pending) :
    Tidy (handleConn p.server p.net p.statusText p.forwarder q).1 := by
  obtain ⟨fx, hfx, hhandled⟩ := handled h
  rw [hfx]
  exact tidy_handled hhandled

theorem tidy_handler {q : HandlerTalk} (h : (handler p.net p.forwarder q).2 ≠ .error .pending) :
    Tidy (handler p.net p.forwarder q).1 := by
  rcases handler_effects h with hnil | ⟨body, fx, x, -, hx, -, -, hfx⟩
  · rw [hnil]
    exact tidy_of_none fun _ => List.not_mem_nil
  · have hforwarded := forwarded p.net p.forwarder q.addr (q.upstream body) q.peer
    rw [hx] at hforwarded
    rw [hfx]
    exact tidy_forwarded hforwarded (by simp) (by simp)

theorem tidy_echo {addr : String} {tok : ℤ} {peer : Peer} {payload : List UInt8}
    (h : (Server.echo p.net p.text p.forwarder addr tok peer payload).2 ≠ .error .pending) :
    Tidy (Server.echo p.net p.text p.forwarder addr tok peer payload).1 := by
  have hforwarded := forwarded p.net p.forwarder addr (echoRequest addr payload) peer
  unfold Server.echo at h ⊢
  rw [deferring_snd] at h
  rw [deferring_fst _ h]
  have hfx : ∀ {fx x}, Forwarded p.net (echoRequest addr payload) fx x → Tidy (.next tok :: fx ++ [.release tok]) :=
    fun hforwarded => tidy_forwarded hforwarded (by simp) (by simp)
  rcases hx : p.forwarder.forward p.net addr (echoRequest addr payload) peer with ⟨fx, x⟩
  rw [hx] at hforwarded
  cases x with
  | ok resp => exact hfx hforwarded
  | error a => cases a <;> exact hfx hforwarded

theorem tidy_handleStream {q : StreamTalk} (h : (handleStream p.net p.forwarder q).result ≠ .error .pending) :
    Tidy (handleStream p.net p.forwarder q).effects := by
  unfold handleStream at h ⊢
  cases hread : QuicProxy.goReadFrame q.recv.1 with
  | error a =>
    obtain ⟨heffects, -⟩ := closing_eq ([], logged (.error a)) q.send
    simp only [heffects]
    exact tidy_of_none fun _ => List.not_mem_nil
  | ok r =>
    obtain ⟨payload, rest⟩ := r
    rw [hread] at h
    obtain ⟨heffects, hresult, -, -⟩ := closing_eq (deferring (.release q.tok) (serveFrame p.net p.forwarder q payload).1)
      (serveFrame p.net p.forwarder q payload).2
    simp only [hresult, heffects, deferring_snd] at h ⊢
    rw [deferring_fst _ h, effects_serveFrame]
    exact tidy_forwarded (forwarded p.net p.forwarder q.addr (echoRequest q.addr payload) q.peer) (by simp) (by simp)

/-- **Every call that comes to an end is tidy.** -/
theorem tidy_effects (p : Proxy α β) {r : Req} (h : p.ends r = true) : Tidy (p.effects r) := by
  cases r with
  | handleConn q => exact tidy_handleConn (isOver_iff.1 h)
  | handler q => exact tidy_handler (isOver_iff.1 h)
  | echo addr tok peer payload => exact tidy_echo (isOver_iff.1 h)
  | handleStream q => exact tidy_handleStream (isOver_iff.1 h)

end Calls

/-! ## What a step can do -/

section Steps

variable {α β : Type} {p : Proxy α β} {s t : Serving} {e : Ev} {sel sel' : Selectors.Sys} {c c' : Call} {k i : ℕ}
  {kind : Selectors.Kind} {addrs : List String}

inductive Performed (sel : Selectors.Sys) (c : Call) : Selectors.Sys → Call → Prop
  | calls {tok : ℤ} {left : List Effect} {sel' : Selectors.Sys} : c.left = .next tok :: left → c.task = none →
      Selectors.step64 Int.ofNat sel .next = some sel' → Performed sel c sel' { c with task := some sel.tasks.length }
  | goesOn {e : Effect} {left : List Effect} : c.left = e :: left → (∀ tok, e ≠ .release tok) →
      Performed sel c sel { c with left }
  | releases {tok : ℤ} {left : List Effect} {k idx : ℕ} {sel' : Selectors.Sys} : c.left = .release tok :: left →
      c.task = some k → sel.tasks[k]? = some (.held idx tok) → Selectors.step64 Int.ofNat sel (.run k .release) = some sel' →
      Performed sel c sel' { c with left }

/-- **Inversion of `perform`.** -/
theorem performed_of_perform (h : perform sel c = some (sel', c')) : Performed sel c sel' c' := by
  unfold perform at h
  split at h
  · cases h
  · rename_i hleft htask
    obtain ⟨sel₁, hs, heq⟩ := Option.map_eq_some_iff.1 h
    obtain ⟨rfl, rfl⟩ := Prod.mk.inj heq
    exact .calls hleft htask hs
  · rename_i hleft _
    split at h
    · split_ifs at h
      obtain ⟨rfl, rfl⟩ := Prod.mk.inj (Option.some.inj h)
      exact .goesOn hleft fun tok => Effect.noConfusion
    · cases h
  · cases h
  · rename_i hleft htask
    split at h
    · rename_i hheld
      split_ifs at h with htok
      subst htok
      obtain ⟨sel₁, hs, heq⟩ := Option.map_eq_some_iff.1 h
      obtain ⟨rfl, rfl⟩ := Prod.mk.inj heq
      exact .releases hleft htask hheld hs
    · cases h
  · rename_i hleft _ _ hnone hsome
    obtain ⟨rfl, rfl⟩ := Prod.mk.inj (Option.some.inj h)
    refine .goesOn hleft fun tok htok => ?_
    cases htask : c.task with
    | none => exact hnone tok htask htok
    | some k => exact hsome tok k htask htok

inductive Stepped (p : Proxy α β) (s : Serving) : Ev → Serving → Prop
  | arrive {r : Req} : Stepped p s (.arrive r) ⟨s.selector, s.calls ++ [⟨p.effects r, p.ends r, none⟩]⟩
  | perform {i : ℕ} {c c' : Call} {sel : Selectors.Sys} : s.calls[i]? = some c → Performed s.selector c sel c' →
      Stepped p s (.perform i) ⟨sel, s.calls.set i c'⟩
  | select {k : ℕ} {a : Selectors.Act} {sel : Selectors.Sys} : a ≠ .release →
      Selectors.step64 Int.ofNat s.selector (.run k a) = some sel → Stepped p s (.select k a) ⟨sel, s.calls⟩
  | stats {reset : Bool} {sel : Selectors.Sys} : Selectors.step64 Int.ofNat s.selector (.stats reset) = some sel →
      Stepped p s (.stats reset) ⟨sel, s.calls⟩

/-- **Inversion of `step`.** -/
theorem stepped_of_step (h : step p s e = some t) : Stepped p s e t := by
  cases e with
  | arrive r =>
    obtain rfl := Option.some.inj h
    exact .arrive
  | perform i =>
    obtain ⟨c, hc, h⟩ := Option.bind_eq_some_iff.1 h
    obtain ⟨⟨sel, c'⟩, hperform, h⟩ := Option.bind_eq_some_iff.1 h
    obtain rfl := Option.some.inj h
    exact .perform hc (performed_of_perform hperform)
  | select k a =>
    simp only [step] at h
    split_ifs at h with ha
    obtain ⟨sel, hs, rfl⟩ := Option.map_eq_some_iff.1 h
    exact .select ha hs
  | stats reset =>
    simp only [step] at h
    obtain ⟨sel, hs, rfl⟩ := Option.map_eq_some_iff.1 h
    exact .stats hs

/-! ## The invariant -/

/-- The task is a call of `Next` whose token is not back. -/
def taken : Selectors.Pc → Bool
  | .ended => false
  | pc => !pc.isStats

/-- A request has this call of `Next`, and the release of its token still to do if its call comes to an end. -/
def Owned (calls : List Call) (k : ℕ) : Prop :=
  ∃ c ∈ calls, c.task = some k ∧ (c.ends = true → ∃ tok, .release tok ∈ c.left)

/-- **The invariant**: the selector is in a run of its own, and a token that is out has an owner. -/
structure Tracked (kind : Selectors.Kind) (addrs : List String) (s : Serving) : Prop where
  reached : ∃ es, Run (Selectors.step64 Int.ofNat) Any (Selectors.Sys.new kind addrs) es s.selector
  tidy : ∀ c ∈ s.calls, c.ends = true → Tidy c.left
  owned : ∀ k pc, s.selector.tasks[k]? = some pc → taken pc = true → Owned s.calls k

theorem reached_snoc {e : Selectors.Ev} (h : ∃ es, Run (Selectors.step64 Int.ofNat) Any (Selectors.Sys.new kind addrs) es sel)
    (hs : Selectors.step64 Int.ofNat sel e = some sel') :
    ∃ es, Run (Selectors.step64 Int.ofNat) Any (Selectors.Sys.new kind addrs) es sel' := by
  obtain ⟨es, hrun⟩ := h
  exact ⟨es ++ [e], hrun.snoc trivial hs⟩

theorem taken_of_acted {g g' : Selectors.Selector} {pc pc' : Selectors.Pc} {a : Selectors.Act}
    (h : Selectors.Acted Int.ofNat g pc a g' pc') (ha : a ≠ .release) : taken pc' = taken pc := by
  have hscan : ∀ n i best ties (l : ℤ), taken (Selectors.scan n i best l ties) = true := by
    intro n i best ties l
    unfold Selectors.scan
    split_ifs <;> rfl
  have hstats : ∀ n reset snap, taken (Selectors.stats n reset snap) = false := by
    intro n reset snap
    unfold Selectors.stats
    split_ifs <;> rfl
  cases h with
  | leastFirst | less | tie | more => exact hscan _ _ _ _ _
  | statsInflight => exact hstats _ _ _
  | release => exact absurd rfl ha
  | p2cOwn | statsLoad => split_ifs <;> rfl
  | _ => rfl

theorem not_taken_of_released {g g' : Selectors.Selector} {pc pc' : Selectors.Pc}
    (h : Selectors.Acted Int.ofNat g pc .release g' pc') : taken pc' = false := by
  cases h
  rfl

theorem tasks_of_run {a : Selectors.Act} (hs : Selectors.step64 Int.ofNat sel (.run k a) = some sel') :
    ∃ pc g pc', sel.tasks[k]? = some pc ∧ Selectors.Acted Int.ofNat sel.shared pc a g pc' ∧
      ∀ j q, sel'.tasks[j]? = some q → (j = k ∧ q = pc') ∨ (j ≠ k ∧ sel.tasks[j]? = some q) := by
  cases Selectors.stepped64_of_step64 hs with
  | @run _ _ pc pc' g hk ha =>
    refine ⟨pc, g, pc', hk, ha, fun j q hj => ?_⟩
    rw [List.getElem?_set] at hj
    split_ifs at hj with hjk hlt
    · exact .inl ⟨hjk.symm, (Option.some.inj hj).symm⟩
    · exact .inr ⟨fun h => hjk h.symm, hj⟩

theorem Owned.set (h : Owned s.calls k) (hi : s.calls[i]? = some c)
    (hc : c.task = some k → c'.task = some k ∧ c'.ends = c.ends ∧ ∀ tok, .release tok ∈ c.left → .release tok ∈ c'.left) :
    Owned (s.calls.set i c') k := by
  obtain ⟨d, hd, htask, hrelease⟩ := h
  obtain ⟨j, hj⟩ := List.mem_iff_getElem?.1 hd
  obtain ⟨hlt, -⟩ := List.getElem?_eq_some_iff.1 hi
  by_cases hij : i = j
  · subst hij
    obtain rfl := Option.some.inj (hi.symm.trans hj)
    obtain ⟨htask', hover, hkeep⟩ := hc htask
    refine ⟨c', List.mem_set hlt _, htask', fun h => ?_⟩
    obtain ⟨tok, htok⟩ := hrelease (hover ▸ h)
    exact ⟨tok, hkeep tok htok⟩
  · refine ⟨d, List.mem_of_getElem? (i := j) ?_, htask, hrelease⟩
    rw [List.getElem?_set_ne hij]
    exact hj

theorem tracked_perform (h : Tracked kind addrs s) (hi : s.calls[i]? = some c) (hp : Performed s.selector c sel c') :
    Tracked kind addrs ⟨sel, s.calls.set i c'⟩ := by
  have htidy := h.tidy c (List.mem_of_getElem? hi)
  obtain ⟨hlt, -⟩ := List.getElem?_eq_some_iff.1 hi
  cases hp with
  | @calls tok left sel hleft htask hs =>
    refine ⟨reached_snoc h.reached hs, ?_, fun k pc hk htaken => ?_⟩
    · apply forall_mem_set h.tidy
      exact htidy
    cases Selectors.stepped64_of_step64 hs with
    | next =>
      rw [List.getElem?_append] at hk
      split_ifs at hk with hlen
      · refine (h.owned k pc hk htaken).set hi fun hown => ?_
        rw [htask] at hown
        cases hown
      · -- the new task
        obtain ⟨hzero, -⟩ := List.getElem?_eq_some_iff.1 hk
        obtain rfl : k = s.selector.tasks.length := by
          rw [List.length_singleton] at hzero
          omega
        refine ⟨{ c with task := some s.selector.tasks.length }, List.mem_set hlt _, rfl, fun hover => ?_⟩
        have hnext := htidy hover
        rw [hleft] at hnext
        exact ⟨tok, by rw [hleft]; exact List.mem_cons_of_mem _ hnext.head⟩
  | @goesOn e left hleft hne =>
    refine ⟨h.reached, forall_mem_set h.tidy (fun hover => ?_) i, fun k pc hk htaken => ?_⟩
    · have hall := htidy hover
      rw [hleft] at hall
      exact hall.tail
    · refine (h.owned k pc hk htaken).set hi fun hown => ⟨hown, rfl, fun tok hmem => ?_⟩
      rw [hleft] at hmem
      exact (List.mem_cons.1 hmem).resolve_left fun heq => hne tok heq.symm
  | @releases tok left k idx sel hleft htask hheld hs =>
    obtain ⟨pc, g, pc', -, ha, hothers⟩ := tasks_of_run hs
    refine ⟨reached_snoc h.reached hs, forall_mem_set h.tidy (fun hover => ?_) i, fun j q hj htaken => ?_⟩
    · have hall := htidy hover
      rw [hleft] at hall
      exact hall.tail
    · rcases hothers j q hj with ⟨-, rfl⟩ | ⟨hne, hold⟩
      · rw [not_taken_of_released ha] at htaken
        cases htaken
      · refine (h.owned j q hold htaken).set hi fun hown => ?_
        exact absurd (Option.some.inj (hown.symm.trans htask)) hne

/-- **Every step keeps the owners.** -/
theorem tracked_step (h : Tracked kind addrs s) (hs : step p s e = some t) : Tracked kind addrs t := by
  cases stepped_of_step hs with
  | @arrive r =>
    refine ⟨h.reached, forall_mem_concat h.tidy fun hover => tidy_effects p hover, fun k pc hk htaken => ?_⟩
    obtain ⟨c, hc, hown⟩ := h.owned k pc hk htaken
    exact ⟨c, List.mem_append_left _ hc, hown⟩
  | perform hi hp => exact tracked_perform h hi hp
  | select ha hsel =>
    obtain ⟨pc, g, pc', hk, hacted, hothers⟩ := tasks_of_run hsel
    refine ⟨reached_snoc h.reached hsel, h.tidy, fun j q hj htaken => ?_⟩
    rcases hothers j q hj with ⟨rfl, rfl⟩ | ⟨-, hold⟩
    · exact h.owned j pc hk (taken_of_acted hacted ha ▸ htaken)
    · exact h.owned j q hold htaken
  | @stats reset sel hsel =>
    refine ⟨reached_snoc h.reached hsel, h.tidy, fun j q hj htaken => ?_⟩
    cases Selectors.stepped64_of_step64 hsel with
    | stats =>
      rw [List.getElem?_append] at hj
      split_ifs at hj with hlen
      · exact h.owned j q hj htaken
      · obtain rfl := List.mem_singleton.1 (List.mem_of_getElem? hj)
        unfold Selectors.stats at htaken
        split_ifs at htaken <;> cases htaken

/-! ## Runs -/

/-- **Every token comes back.**  Any number of requests at the four handlers, over one counting selector, in any interleaving of
single atomic operations with calls of `Stats`, whatever the clients send, however forwarding ends and whatever panics: the
selector counts the tokens that are out (as an `int64`), each of them belongs to a request that has its release still to do, and when the calls of
all requests are over, nothing is counted in flight. -/
theorem handlers_release {es : List Ev} (h : Run (step p) Any (Serving.new kind addrs) es s) :
    Selectors.Ledger64 s.selector ∧
      (∀ i, s.selector.shared.counters.inflight.getD i 0 = asI64 (tally (Selectors.Pc.holds i) s.selector.tasks : ℕ)) ∧
      (∀ k idx token, s.selector.tasks[k]? = some (.held idx token) → Owned s.calls k) ∧
      ((∀ c ∈ s.calls, c.ends = true ∧ c.left = []) → ∀ x ∈ s.selector.shared.counters.inflight, x = 0) := by
  have htracked : Tracked kind addrs s := by
    refine h.invariant ⟨⟨[], .nil⟩, ?_, ?_⟩ fun _ _ _ hu _ hs => tracked_step hu hs
    · exact fun c hc => absurd hc List.not_mem_nil
    · intro k pc hk
      cases hk
  obtain ⟨fs, hrun⟩ := htracked.reached
  have hkept := Selectors.kept_of_exact (Selectors.exact_of_int hrun)
  refine ⟨hkept.ledger64, hkept.inflight_eq, fun k idx token hk => htracked.owned k _ hk rfl, ?_⟩
  intro hover x hx
  obtain ⟨i, hi, rfl⟩ := List.mem_iff_getElem.1 hx
  -- no token is out
  have hnone : tally (Selectors.Pc.holds i) s.selector.tasks = 0 := by
    refine tally_eq_zero_iff.2 fun pc hpc => ?_
    obtain ⟨k, hk⟩ := List.mem_iff_getElem?.1 hpc
    cases pc with
    | held idx token =>
      obtain ⟨c, hc, -, hrelease⟩ := htracked.owned k _ hk rfl
      obtain ⟨tok, hmem⟩ := hrelease (hover c hc).1
      rw [(hover c hc).2] at hmem
      cases hmem
    | _ => rfl
  have hcount := hkept.inflight_eq i
  rw [hnone, asI64_eq (by decide)] at hcount
  simpa [List.getD_eq_getElem?_getD, hi] using hcount

end Steps

/-! ## A run -/

/-- A process that dials for every request. -/
def dialing : Proxy (List UInt8) (Ending × List UInt8 × Rfc9112.Extent) where
  server := bufferedServer
  net := bufferedHttp
  statusText := fun _ => []
  text := fun _ => []
  forwarder := .dial

/-- A request whose handler panics: the upstream answers with the status `099`. -/
def panicking : Req :=
  .handler { hintedTalk with
    tok := 0
    peer := .conn conn0 .done ⟨⟨[utf8Encode "HTTP/1.1 099 No\r\n\r\n".toList], .open⟩, by decide⟩ }

/-- It panics while `Stats` is called, and the upstream of a second request is not reached. -/
def panickingEvents : List Ev :=
  [.arrive panicking, .perform 0, .select 0 .fetchAdd, .arrive (.echo "v:1" 1 (.unreachable .other) []), .perform 1,
    .select 1 .fetchAdd, .select 1 .fetchAdd, .select 0 .fetchAdd, .stats true, .select 0 .fetchAdd, .select 2 (.load false),
    .select 1 .fetchAdd, .perform 0, .perform 0, .perform 0, .perform 1, .select 2 .fetchSub, .perform 0, .perform 0, .perform 1]

theorem handlers_release_panicking : ∃ s, Run (step dialing) Any (Serving.new .countingRoundRobin ["u:1", "v:1"]) panickingEvents s ∧
    (∀ c ∈ s.calls, c.ends = true ∧ c.left = []) ∧ ∀ x ∈ s.selector.shared.counters.inflight, x = 0 := by
  have hexec : (exec (step dialing) Any (Serving.new .countingRoundRobin ["u:1", "v:1"]) panickingEvents).map
      (fun s => s.calls) = some [⟨[], true, some 0⟩, ⟨[], true, some 1⟩] := by
    decide +kernel
  obtain ⟨s, hs, hcalls⟩ := Option.map_eq_some_iff.1 hexec
  have hover : ∀ c ∈ s.calls, c.ends = true ∧ c.left = [] := by
    rw [hcalls]
    decide
  obtain ⟨-, -, -, hback⟩ := handlers_release (Run.of_exec hs)
  exact ⟨s, Run.of_exec hs, hover, hback hover⟩

end ServiceProxy.Go.Handlers
