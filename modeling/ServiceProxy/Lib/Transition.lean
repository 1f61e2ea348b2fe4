import Mathlib.Algebra.Order.Ring.Nat
import Mathlib.Logic.Function.Basic

/-!
# Transition systems and their runs

A system is a partial step function `step : σ → ε → Option σ` on states and events.  `Run step P s es t`
says that the events `es` lead from `s` to `t` and that every event `e` was taken in a state `u` with
`P u e`; `P` is where the assumptions on the environment and on the schedule of a run are put.

* `Run.invariant` — what every step keeps holds at the end of every run;
* `Run.counted` — a quantity that grows with the bad steps is zero exactly after a run without them;
* `Run.paid` — the steps of a run that must be paid for, against what there is to pay with;
* `Run.of_exec` — a concrete list of events that executes is a run;
* `Run.project` — what one system sees of a run of another, which takes steps of its own;
* `trace`, `Run.observed` — what is seen of a run, and the invariant rule for it;
* `famStep`, `Run.family` — a family of systems that take turns: what one member sees of a run of the
  family is a run of that member.
-/

namespace ServiceProxy.Lib

variable {σ ε κ ω : Type*}

/-- The events `es` lead from `s` to the last state, each of them taken where `P` allows it. -/
inductive Run (step : σ → ε → Option σ) (P : σ → ε → Prop) (s : σ) : List ε → σ → Prop
  | nil : Run step P s [] s
  | snoc {es : List ε} {t u : σ} {e : ε} :
      Run step P s es t → P t e → step t e = some u → Run step P s (es ++ [e]) u

/-- Every event is allowed. -/
def Any : σ → ε → Prop := fun _ _ => True

instance (s : σ) (e : ε) : Decidable (Any s e) := isTrue trivial

section Runs

variable {step : σ → ε → Option σ} {P Q : σ → ε → Prop} {s t u : σ} {es fs : List ε}

/-- **The invariant rule.** -/
theorem Run.invariant {I : σ → Prop} (h : Run step P s es t) (h0 : I s)
    (hstep : ∀ u e v, I u → P u e → step u e = some v → I v) : I t := by
  induction h with
  | nil => exact h0
  | snoc _ hP hs ih => exact hstep _ _ _ ih hP hs

theorem Run.mono (h : Run step P s es t) (hPQ : ∀ u e, P u e → Q u e) : Run step Q s es t := by
  induction h with
  | nil => exact .nil
  | snoc _ hP hs ih => exact .snoc ih (hPQ _ _ hP) hs

theorem Run.of_mem {Q : ε → Prop} (h : Run step P s es t) (hQ : ∀ e ∈ es, Q e) : Run step (fun _ e => Q e) s es t := by
  induction h with
  | nil => exact .nil
  | snoc _ _ hs ih =>
    exact .snoc (ih fun e he => hQ e (List.mem_append_left _ he)) (hQ _ (List.mem_append_right _ List.mem_cons_self)) hs

/-- An invariant of the run may be used to change its assumptions. -/
theorem Run.mono_of_invariant {I : σ → Prop} (h : Run step P s es t) (h0 : I s)
    (hstep : ∀ u e v, I u → P u e → step u e = some v → I v) (hPQ : ∀ u e, I u → P u e → Q u e) : Run step Q s es t := by
  induction h with
  | nil => exact .nil
  | snoc h hP hs ih => exact .snoc ih (hPQ _ _ (h.invariant h0 hstep) hP) hs

theorem Run.one {e : ε} (hP : P s e) (hs : step s e = some t) : Run step P s [e] t :=
  by simpa using Run.snoc Run.nil hP hs

theorem Run.trans (h : Run step P s es t) (h' : Run step P t fs u) : Run step P s (es ++ fs) u := by
  induction h' with
  | nil => simpa using h
  | snoc _ hP hs ih =>
    rw [← List.append_assoc]
    exact .snoc ih hP hs

theorem Run.snoc_iff {e : ε} : Run step P s (es ++ [e]) u ↔ ∃ t, Run step P s es t ∧ P t e ∧ step t e = some u := by
  constructor
  · intro h
    generalize hl : es ++ [e] = l at h
    cases h with
    | nil => simp at hl
    | @snoc es' t _ e' h hP hs =>
      obtain ⟨rfl, he⟩ := List.append_inj' hl rfl
      obtain rfl : e = e' := by simpa using he
      exact ⟨t, h, hP, hs⟩
  · rintro ⟨t, h, hP, hs⟩
    exact .snoc h hP hs

theorem Run.det (h : Run step P s es t) (h' : Run step Q s es u) : t = u := by
  induction h generalizing u with
  | nil =>
    generalize hl : ([] : List ε) = l at h'
    cases h' with
    | nil => rfl
    | snoc => simp at hl
  | snoc _ _ hs ih =>
    obtain ⟨v, hv, -, hs'⟩ := Run.snoc_iff.1 h'
    obtain rfl := ih hv
    exact Option.some.inj (hs.symm.trans hs')

theorem Run.and (h : Run step P s es t) (h' : Run step Q s es t) : Run step (fun u e => P u e ∧ Q u e) s es t := by
  induction h with
  | nil => exact .nil
  | snoc h hP hs ih =>
    obtain ⟨u, hu, hQ, -⟩ := Run.snoc_iff.1 h'
    obtain rfl := h.det hu
    exact .snoc (ih hu) ⟨hP, hQ⟩ hs

/-- **The counting rule.**  If every step adds its `bad` to the `k` of the invariant `J k`, then `k` is `0` at the end of
a run exactly when no step was bad. -/
theorem Run.counted {J : ℕ → σ → Prop} {bad : σ → ε → ℕ} (h : Run step P s es t) (h0 : J 0 s)
    (hstep : ∀ k u e v, J k u → step u e = some v → J (k + bad u e) v) :
    ∃ k, J k t ∧ (k = 0 ↔ Run step (fun u e => bad u e = 0) s es t) := by
  induction h with
  | nil => exact ⟨0, h0, by simp [Run.nil]⟩
  | @snoc es t u e ht _ hs ih =>
    obtain ⟨k, hk, hiff⟩ := ih
    refine ⟨k + bad t e, hstep k t e u hk hs, ?_⟩
    rw [Run.snoc_iff]
    constructor
    · intro hz
      exact ⟨t, hiff.1 (by omega), by omega, hs⟩
    · rintro ⟨t', ht', hbad, -⟩
      obtain rfl := ht.det ht'
      have := hiff.2 ht'
      omega

/-- **The potential rule.**  A step that `p` counts is paid for by what was `left` before it, or by a `gain`. -/
theorem Run.paid {p : ε → Bool} (left gain : σ → ℕ) (h : Run step P s es t)
    (hstep : ∀ u e v, P u e → step u e = some v → left v + (if p e then 1 else 0) + gain u = left u + gain v) :
    es.countP p + left t + gain s = left s + gain t := by
  induction h with
  | nil => rw [List.countP_nil, Nat.zero_add]
  | @snoc es t u e _ hP hs ih =>
    have hpaid := hstep t e u hP hs
    rw [List.countP_append, List.countP_singleton]
    omega

/-- **What one system sees of a run of another.**  Every step of the run either leaves what is seen as it is or shows as a step. -/
theorem Run.project {σ' ε' : Type*} {step' : σ' → ε' → Option σ'} (f : σ → σ') (g : ε → Option ε') (h : Run step P s es t)
    (hstep : ∀ u e v, step u e = some v → (g e).elim (f v = f u) fun e' => step' (f u) e' = some (f v)) :
    Run step' Any (f s) (es.filterMap g) (f t) := by
  induction h with
  | nil => exact .nil
  | @snoc es t u e _ _ hs ih =>
    rw [List.filterMap_append]
    have he := hstep t e u hs
    cases hg : g e with
    | none =>
      rw [hg] at he
      rw [List.filterMap_cons_none hg, List.filterMap_nil, List.append_nil, he]
      exact ih
    | some e' =>
      rw [hg] at he
      rw [List.filterMap_cons_some hg, List.filterMap_nil]
      exact .snoc ih trivial he

end Runs

/-! ## Executing a list of events -/

/-- Execute the events in order, each of them where the decidable `P` allows it. -/
def exec (step : σ → ε → Option σ) (P : σ → ε → Prop) [∀ u e, Decidable (P u e)] : σ → List ε → Option σ
  | s, [] => some s
  | s, e :: es => if P s e then (step s e).bind fun t => exec step P t es else none

theorem Run.of_exec {step : σ → ε → Option σ} {P : σ → ε → Prop} [∀ u e, Decidable (P u e)] :
    ∀ {es : List ε} {s t : σ}, exec step P s es = some t → Run step P s es t
  | [], s, t, h => by
    obtain rfl : s = t := by simpa [exec] using h
    exact .nil
  | e :: es, s, t, h => by
    simp only [exec] at h
    split at h
    · rename_i hP
      obtain ⟨u, hu, ht⟩ := Option.bind_eq_some_iff.1 h
      exact (Run.one hP hu).trans (Run.of_exec ht)
    · cases h

theorem Run.of_exec_get {step : σ → ε → Option σ} {P : σ → ε → Prop} [∀ u e, Decidable (P u e)] {es : List ε} {s : σ}
    (h : (exec step P s es).isSome) : Run step P s es ((exec step P s es).get h) :=
  Run.of_exec (Option.some_get h).symm

/-! ## What is seen of a run -/

section Trace

variable {step : σ → ε → Option σ} {P : σ → ε → Prop} {obs : σ → ε → List ω} {s t : σ} {es : List ε}

/-- What the steps of a run show, in order. -/
def trace (step : σ → ε → Option σ) (obs : σ → ε → List ω) : σ → List ε → List ω
  | _, [] => []
  | s, e :: es => obs s e ++ (step s e).elim [] fun t => trace step obs t es

theorem Run.trace_append (h : Run step P s es t) (fs : List ε) :
    trace step obs s (es ++ fs) = trace step obs s es ++ trace step obs t fs := by
  induction h generalizing fs with
  | nil => rfl
  | @snoc es t u e _ _ hs ih =>
    have hmore : ∀ fs, trace step obs t (e :: fs) = obs t e ++ trace step obs u fs := by
      intro fs
      rw [trace, hs]
      rfl
    rw [List.append_assoc, ih, ih, List.singleton_append, hmore, hmore, trace, List.append_nil, List.append_assoc]

theorem Run.trace_snoc (h : Run step P s es t) (e : ε) :
    trace step obs s (es ++ [e]) = trace step obs s es ++ obs t e := by
  rw [h.trace_append, trace]
  cases step t e with
  | none => simp
  | some u => simp [trace]

/-- **The invariant rule** for the events of a run and what they show. -/
theorem Run.observed {J : List ω → List ε → σ → Prop} (h : Run step P s es t) (h0 : J [] [] s)
    (hstep : ∀ os fs u e v, J os fs u → P u e → step u e = some v → J (os ++ obs u e) (fs ++ [e]) v) :
    J (trace step obs s es) es t := by
  induction h with
  | nil => exact h0
  | snoc h hP hs ih =>
    rw [h.trace_snoc]
    exact hstep _ _ _ _ _ ih hP hs

end Trace

/-! ## A family of systems taking turns -/

section Family

variable [DecidableEq κ]

/-- One member of a family of systems takes a step, the others stay. -/
def famStep (step : σ → ε → Option σ) (M : κ → Option σ) (e : κ × ε) : Option (κ → Option σ) :=
  (M e.1).bind fun s => (step s e.2).map fun t => Function.update M e.1 (some t)

/-- The events of the member `k`. -/
def eventsOf (k : κ) (es : List (κ × ε)) : List ε := (es.filter fun e => e.1 = k).map Prod.snd

/-- `P` for the member that takes the step. -/
def famP (P : σ → ε → Prop) (M : κ → Option σ) (e : κ × ε) : Prop := ∀ s, M e.1 = some s → P s e.2

instance {P : σ → ε → Prop} [∀ s e, Decidable (P s e)] (M : κ → Option σ) (e : κ × ε) : Decidable (famP P M e) :=
  match h : M e.1 with
  | none => isTrue fun s hs => by simp [h] at hs
  | some s => decidable_of_iff (P s e.2) (by simp [famP, h])

theorem famStep_eq_some {step : σ → ε → Option σ} {M N : κ → Option σ} {e : κ × ε}
    (h : famStep step M e = some N) :
    ∃ s t, M e.1 = some s ∧ step s e.2 = some t ∧ N = Function.update M e.1 (some t) := by
  obtain ⟨s, hs, h⟩ := Option.bind_eq_some_iff.1 h
  obtain ⟨t, ht, rfl⟩ := Option.map_eq_some_iff.1 h
  exact ⟨s, t, hs, ht, rfl⟩

/-- **What one member sees of a run of the family is a run of that member.** -/
theorem Run.family {step : σ → ε → Option σ} {P : σ → ε → Prop} {M N : κ → Option σ} {es : List (κ × ε)}
    (h : Run (famStep step) (famP P) M es N) (k : κ) {t : σ} (ht : N k = some t) :
    ∃ s, M k = some s ∧ Run step P s (eventsOf k es) t := by
  induction h generalizing t with
  | nil => exact ⟨t, ht, .nil⟩
  | @snoc es L N e _ hP hs ih =>
    obtain ⟨u, v, hu, hv, rfl⟩ := famStep_eq_some hs
    by_cases hk : e.1 = k
    · subst hk
      obtain rfl : v = t := by simpa using ht
      obtain ⟨s, hs, hrun⟩ := ih hu
      refine ⟨s, hs, ?_⟩
      have : eventsOf e.1 (es ++ [e]) = eventsOf e.1 es ++ [e.2] := by simp [eventsOf]
      rw [this]
      exact .snoc hrun (hP u hu) hv
    · rw [Function.update_of_ne (fun h => hk h.symm)] at ht
      obtain ⟨s, hs, hrun⟩ := ih ht
      refine ⟨s, hs, ?_⟩
      have : eventsOf k (es ++ [e]) = eventsOf k es := by simp [eventsOf, hk]
      rwa [this]

theorem Run.family_isSome {step : σ → ε → Option σ} {P : (κ → Option σ) → κ × ε → Prop} {M N : κ → Option σ}
    {es : List (κ × ε)} (h : Run (famStep step) P M es N) {k : κ} (hk : (M k).isSome) : (N k).isSome := by
  refine h.invariant (I := fun N => (N k).isSome) hk fun L e N hL _ hs => ?_
  obtain ⟨u, v, -, -, rfl⟩ := famStep_eq_some hs
  by_cases hk : k = e.1
  · subst hk; simp
  · simpa [Function.update_of_ne hk] using hL

end Family

end ServiceProxy.Lib
