import ServiceProxy.Lib.Custody

/-!
# Threads that lend and return

A pool whose calls are threads over its shared state: a thread that `gets` is asking for a connection, then one is lent to
it, and it may return it.  `Free` connections are idle, being returned, or not made yet.

* `Keeps s t` — what a step from `s` to `t` may do: it lends only free connections, to threads that ask, and frees only what
  is put back as healthy;
* `Moved` — one thread moves on; `Moved.keeps` and `Keeps.trans` build steps from such moves;
* `not_free`, `user_unique` — what is lent is not free and lent to one thread only, when every connection is in one place.
-/

namespace ServiceProxy.Lib

/-- What a thread and the shared state say about connections. -/
structure Lender (γ τ κ : Type) where
  idle : γ → List κ
  unborn : γ → κ → Prop
  gets : τ → Bool
  lent? : τ → Option κ
  returns? : τ → Option κ

namespace Lender

variable {γ τ κ ε : Type} (L : Lender γ τ κ)

def user (s : Threads γ τ) (i : ℕ) : Option κ := (s.tasks[i]?).bind L.lent?

def Getting (s : Threads γ τ) (i : ℕ) : Prop := ∀ t, s.tasks[i]? = some t → L.gets t = true

/-- The connection is idle, or being returned, or not made yet. -/
def Free (s : Threads γ τ) (c : κ) : Prop :=
  c ∈ L.idle s.shared ∨ (∃ t ∈ s.tasks, L.returns? t = some c) ∨ L.unborn s.shared c

/-- **What a step may do**; `put i` says that it is the thread `i` that puts its connection back. -/
structure Keeps (put : ℕ → Prop) (s t : Threads γ τ) : Prop where
  free : ∀ c, L.Free t c → L.Free s c ∨ ∃ i, L.user s i = some c ∧ put i
  user : ∀ i c, L.user t i = some c → L.user s i = some c ∨ L.Getting s i ∧ L.Free s c
  getting : ∀ i, L.Getting t i → L.Getting s i

/-- The thread `i` moves from `t` to `t'`, and the shared state to `g`. -/
structure Moved (put : Prop) (s : Threads γ τ) (i : ℕ) (t : τ) (g : γ) (t' : τ) : Prop where
  here : s.tasks[i]? = some t
  idle : ∀ c ∈ L.idle g, L.Free s c
  unborn : ∀ c, L.unborn g c → L.unborn s.shared c
  gets : L.gets t' = false ∨ L.gets t = true
  lent : ∀ c, L.lent? t' = some c → L.gets t = true ∧ L.Free s c
  returns : ∀ c, L.returns? t' = some c → L.lent? t = some c ∧ put

variable {L} {put : ℕ → Prop} {s t u : Threads γ τ} {i j : ℕ} {c : κ} {g : γ} {x x' : τ}

theorem user_eq_some : L.user s i = some c ↔ ∃ x, s.tasks[i]? = some x ∧ L.lent? x = some c := by
  simp [user, Option.bind_eq_some_iff]

theorem getting_of_gets (hi : s.tasks[i]? = some x) (h : L.gets x = true) : L.Getting s i := by
  intro y hy
  obtain rfl := Option.some.inj (hi.symm.trans hy)
  exact h

theorem Moved.quiet {p : Prop} (hi : s.tasks[i]? = some x) (hidle : L.idle g = L.idle s.shared)
    (hunborn : L.unborn g = L.unborn s.shared) (hgets : L.gets x' = false ∨ L.gets x = true) (hlent : L.lent? x' = none)
    (hreturns : L.returns? x' = none) : L.Moved p s i x g x' := by
  refine ⟨hi, fun c hc => .inl (hidle ▸ hc), fun c hc => hunborn ▸ hc, hgets, fun c hc => ?_, fun c hc => ?_⟩
  · rw [hlent] at hc
    cases hc
  · rw [hreturns] at hc
    cases hc

/-- **A thread that moves on keeps the discipline.** -/
theorem Moved.keeps (h : L.Moved (put i) s i x g x') : L.Keeps put s ⟨g, s.tasks.set i x'⟩ := by
  have hget : ∀ j y, (s.tasks.set i x')[j]? = some y → s.tasks[j]? = some y ∨ i = j ∧ y = x' := by
    intro j y hj
    rw [List.getElem?_set] at hj
    split_ifs at hj with hij hlen
    · exact .inr ⟨hij, (Option.some.inj hj).symm⟩
    · exact .inl hj
  refine ⟨fun c hc => ?_, fun j c hj => ?_, fun j hj => ?_⟩
  · rcases hc with hc | ⟨y, hy, hret⟩ | hc
    · exact .inl (h.idle c hc)
    · rcases List.mem_or_eq_of_mem_set hy with hy | rfl
      · exact .inl (.inr (.inl ⟨y, hy, hret⟩))
      · obtain ⟨hlent, hput⟩ := h.returns c hret
        exact .inr ⟨i, user_eq_some.2 ⟨x, h.here, hlent⟩, hput⟩
    · exact .inl (.inr (.inr (h.unborn c hc)))
  · obtain ⟨y, hy, hlent⟩ := user_eq_some.1 hj
    rcases hget j y hy with hy | ⟨rfl, rfl⟩
    · exact .inl (user_eq_some.2 ⟨y, hy, hlent⟩)
    · obtain ⟨hgets, hfree⟩ := h.lent c hlent
      exact .inr ⟨getting_of_gets h.here hgets, hfree⟩
  · intro y hy
    by_cases hij : i = j
    · subst hij
      obtain rfl := Option.some.inj (h.here.symm.trans hy)
      have hlen : i < s.tasks.length := (List.getElem?_eq_some_iff.1 hy).1
      have hgets : L.gets x' = true := hj x' (by simp [hlen])
      exact h.gets.resolve_left (by simp [hgets])
    · exact hj y (by simpa [List.getElem?_set_ne hij] using hy)

theorem keeps_come (hgets : L.lent? x = none) (hreturns : L.returns? x = none) :
    L.Keeps put s ⟨s.shared, s.tasks ++ [x]⟩ := by
  refine ⟨fun c hc => .inl ?_, fun j c hj => .inl ?_, fun j hj y hy => ?_⟩
  · rcases hc with hc | ⟨y, hy, hret⟩ | hc
    · exact .inl hc
    · rcases List.mem_append.1 hy with hy | hy
      · exact .inr (.inl ⟨y, hy, hret⟩)
      · obtain rfl := List.mem_singleton.1 hy
        rw [hreturns] at hret
        cases hret
    · exact .inr (.inr hc)
  · obtain ⟨y, hy, hlent⟩ := user_eq_some.1 hj
    rw [List.getElem?_append] at hy
    split_ifs at hy
    · exact user_eq_some.2 ⟨y, hy, hlent⟩
    · rw [List.getElem?_singleton] at hy
      split_ifs at hy
      obtain rfl := Option.some.inj hy
      rw [hgets] at hlent
      cases hlent
  · have hlen : j < s.tasks.length := (List.getElem?_eq_some_iff.1 hy).1
    exact hj y (by simpa [List.getElem?_append_left hlen] using hy)

theorem Keeps.trans (h : L.Keeps (fun _ => False) s t) (h' : L.Keeps (fun _ => False) t u) : L.Keeps put s u := by
  have hfree : ∀ c, L.Free t c → L.Free s c := fun c hc => (h.free c hc).resolve_right (by simp)
  refine ⟨fun c hc => .inl (hfree c ((h'.free c hc).resolve_right (by simp))), fun i c hi => ?_,
    fun i hi => h.getting i (h'.getting i hi)⟩
  rcases h'.user i c hi with hi | ⟨hget, hc⟩
  · exact h.user i c hi
  · exact .inr ⟨h.getting i hget, hfree c hc⟩

/-! ## In one place -/

section InOnePlace

variable [DecidableEq κ] {conn? : τ → Option κ} {all : List κ}

theorem user_unique (h : InOnePlace conn? all (L.idle s.shared) s.tasks)
    (hlent : ∀ x c, L.lent? x = some c → conn? x = some c) (hi : L.user s i = some c) (hj : L.user s j = some c) :
    i = j := by
  obtain ⟨x, hx, hxc⟩ := user_eq_some.1 hi
  obtain ⟨y, hy, hyc⟩ := user_eq_some.1 hj
  exact h.holder_unique hx hy (hlent x c hxc) (hlent y c hyc)

theorem not_free (h : InOnePlace conn? all (L.idle s.shared) s.tasks) (hborn : ∀ c ∈ all, ¬ L.unborn s.shared c)
    (hlent : ∀ x c, L.lent? x = some c → conn? x = some c)
    (hreturns : ∀ x c, L.returns? x = some c → conn? x = some c ∧ L.lent? x = none) (hi : L.user s i = some c) :
    ¬ L.Free s c := by
  obtain ⟨x, hx, hxc⟩ := user_eq_some.1 hi
  obtain ⟨hmem, hidle⟩ := h.mem_of_holds hx (hlent x c hxc)
  rintro (hfree | ⟨y, hy, hret⟩ | hfree)
  · exact hidle hfree
  · obtain ⟨hyc, hnone⟩ := hreturns y c hret
    obtain ⟨j, hj⟩ := List.mem_iff_getElem?.1 hy
    obtain rfl := h.holder_unique hx hj (hlent x c hxc) hyc
    obtain rfl := Option.some.inj (hx.symm.trans hj)
    rw [hnone] at hxc
    cases hxc
  · exact hborn c hmem hfree

end InOnePlace

end Lender

end ServiceProxy.Lib
