import ServiceProxy.Upstream.Selector

/-!
# The counting selectors with counters that wrap

`total` and `inflight` are `AtomicI64`s: `fetch_add` and `fetch_sub` wrap around.  `act64` is `act` with every counter taken
modulo `2 ^ 64`, and `step64` is `step` with `act64`.

* `Selector.Valid` — the counters of a selector: one of each kind for every upstream, each an `i64`;
* `Counters.pick` — what `pick` counts, and `pick_injective`: the counters tell which upstream was picked;
* `Stepped64` — inversion of `step64`;
* `Room` — an operation finds room in its counter, so that it does not wrap (`Acted.fit_total`, `Acted.fit_inflight`).
-/

namespace ServiceProxy.Upstream

def asI64 (x : ℤ) : ℤ := x.bmod (2 ^ 64)

/-- The values of an `i64`. -/
def IsI64 (x : ℤ) : Prop := -2 ^ 63 ≤ x ∧ x < 2 ^ 63

instance (x : ℤ) : Decidable (IsI64 x) := inferInstanceAs (Decidable (_ ∧ _))

theorem asI64_eq {x : ℤ} (h : IsI64 x) : asI64 x = x := by
  obtain ⟨hlow, hhigh⟩ := h
  unfold asI64
  rw [Int.bmod_eq_of_le] <;> omega

@[simp] theorem asI64_asI64 (x : ℤ) : asI64 (asI64 x) = asI64 x := Int.bmod_bmod

theorem asI64_asI64_add (x d : ℤ) : asI64 (asI64 x + d) = asI64 (x + d) := Int.bmod_add_bmod

theorem asI64_eq_iff {x y : ℤ} : asI64 x = asI64 y ↔ asI64 (x - y) = 0 := Int.bmod_eq_bmod_iff_bmod_sub_eq_zero

theorem isI64_asI64 (x : ℤ) : IsI64 (asI64 x) := by
  have hlow := Int.le_bmod (x := x) (m := 2 ^ 64) (by omega)
  have hhigh := Int.bmod_lt (x := x) (m := 2 ^ 64) (by omega)
  unfold IsI64 asI64
  omega

/-- An increment is seen, even one that wraps. -/
theorem asI64_add_one_ne (x : ℤ) : asI64 (x + 1) ≠ x := by
  intro h
  have hdvd := Int.bmod_add_bdiv (x + 1) (2 ^ 64)
  unfold asI64 at h
  rw [h] at hdvd
  omega

/-- `Counters` as `i64`s. -/
def Counters.wrap (c : Counters) : Counters := { c with total := c.total.map asI64, inflight := c.inflight.map asI64 }

/-- What `Counters::pick` counts. -/
def Counters.pick (c : Counters) (idx : ℕ) : Counters :=
  { c with total := c.total.modify idx (asI64 <| · + 1), inflight := c.inflight.modify idx (asI64 <| · + 1) }

theorem map_asI64 {xs : List ℤ} (h : ∀ x ∈ xs, IsI64 x) : xs.map asI64 = xs := by
  rw [List.map_congr_left fun x hx => asI64_eq (h x hx)]
  exact List.map_id' xs

theorem map_asI64_fetchAddAt {xs : List ℤ} (h : ∀ x ∈ xs, IsI64 x) (i : ℕ) (d : ℤ) :
    (fetchAddAt xs i d).map asI64 = xs.modify i (asI64 <| · + d) := by
  apply List.ext_getElem?
  intro k
  rw [List.getElem?_map, fetchAddAt, List.getElem?_modify, List.getElem?_modify]
  cases hk : xs[k]? with
  | none => rfl
  | some x =>
    have hx := asI64_eq (h x (List.mem_of_getElem? hk))
    by_cases hik : i = k
    · simp [hik]
    · simp [hik, hx]

theorem Counters.pick_injective {c : Counters} {i j : ℕ} (hi : i < c.total.length) (h : c.pick i = c.pick j) : i = j := by
  have htotal := congrArg (fun c => c.total[i]?) h
  simp only [Counters.pick, List.getElem?_modify, List.getElem?_eq_getElem hi] at htotal
  by_contra hij
  simp only [if_pos, if_neg (Ne.symm hij)] at htotal
  exact asI64_add_one_ne _ (Option.some.inj htotal)

namespace Selectors

open ServiceProxy.Lib

/-! ## The code -/

def Selector.wrap (s : Selector) : Selector := { s with counters := s.counters.wrap }

/-- `act`, with counters that wrap. -/
def act64 (asToken : ℕ → ℤ) (s : Selector) (pc : Pc) (a : Act) : Option (Selector × Pc) :=
  (act asToken s pc a).map fun r => (r.1.wrap, r.2)

/-- `step`, with counters that wrap. -/
def step64 (asToken : ℕ → ℤ) (s : Sys) : Ev → Option Sys
  | .run k a => runLocal (act64 asToken) s k a
  | e => step asToken s e

/-- A counter of each kind for every upstream, each an `i64`. -/
structure Selector.Valid (s : Selector) : Prop where
  total_length : s.counters.total.length = s.counters.addrs.length
  inflight_length : s.counters.inflight.length = s.counters.addrs.length
  total : ∀ x ∈ s.counters.total, IsI64 x
  inflight : ∀ x ∈ s.counters.inflight, IsI64 x

/-- The selector after a call that picked `idx`. -/
def Selector.picked (s : Selector) (idx : ℕ) : Selector :=
  { s with counters := s.counters.pick idx, log := s.log ++ [.addTotal idx, .addInflight idx] }

/-- What a call that has ended leaves and returns. -/
def returned : Selector × Pc → Option (Counters × String × ℤ)
  | (s, .held idx token) => (s.counters.addrs[idx]?).map fun addr => (s.counters, addr, token)
  | _ => none

/-- What a call that picks `k` leaves and returns. -/
def outcome (asToken : ℕ → ℤ) (s : Selector) (k : ℕ) : Option (Counters × String × ℤ) :=
  (s.counters.addrs[k]?).map fun addr => (s.counters.pick k, addr, asToken k)

variable {asToken : ℕ → ℤ} {s s' : Selector} {pc pc' : Pc} {a : Act}

theorem Selector.Valid.wrap_eq (h : s.Valid) : s.wrap = s := by
  unfold Selector.wrap Counters.wrap
  rw [map_asI64 h.total, map_asI64 h.inflight]

theorem valid_new (kind : Kind) (addrs : List String) : (Selector.new kind addrs).Valid := by
  have hzero : ∀ x ∈ List.replicate addrs.length (0 : ℤ), IsI64 x := by
    intro x hx
    obtain rfl := List.eq_of_mem_replicate hx
    unfold IsI64
    omega
  exact ⟨List.length_replicate, List.length_replicate, hzero, hzero⟩

theorem acted_of_act64 (h : act64 asToken s pc a = some (s', pc')) :
    ∃ sel, Acted asToken s pc a sel pc' ∧ s' = sel.wrap := by
  obtain ⟨⟨sel, q⟩, hact, heq⟩ := Option.map_eq_some_iff.1 h
  obtain ⟨rfl, rfl⟩ := Prod.mk.inj heq
  exact ⟨sel, acted_of_act hact, rfl⟩

inductive Stepped64 (asToken : ℕ → ℤ) (s : Sys) : Ev → Sys → Prop
  | next : Stepped64 asToken s .next ⟨s.shared, s.tasks ++ [s.shared.kind.next]⟩
  | stats {reset : Bool} : Stepped64 asToken s (.stats reset)
      ⟨s.shared, s.tasks ++ [stats s.shared.counters.addrs.length reset []]⟩
  | run {k : ℕ} {a : Act} {pc pc' : Pc} {sel : Selector} : s.tasks[k]? = some pc →
      Acted asToken s.shared pc a sel pc' → Stepped64 asToken s (.run k a) ⟨sel.wrap, s.tasks.set k pc'⟩

/-- **Inversion of `step64`.** -/
theorem stepped64_of_step64 {s t : Sys} {e : Ev} (h : step64 asToken s e = some t) : Stepped64 asToken s e t := by
  cases e with
  | next =>
    obtain rfl : _ = t := by simpa [step64, step] using h
    exact .next
  | stats reset =>
    obtain rfl : _ = t := by simpa [step64, step] using h
    exact .stats
  | run k a =>
    obtain ⟨pc, sel, pc', hk, ha, rfl⟩ := runLocal_eq_some h
    obtain ⟨sel, hacted, rfl⟩ := acted_of_act64 ha
    exact .run hk hacted

theorem Shape.wrap {addrs : List String} {sel : Selector} {tasks : List Pc} (h : Shape addrs ⟨sel, tasks⟩) :
    Shape addrs ⟨sel.wrap, tasks⟩ := by
  refine ⟨h.addrs_eq, ?_, ?_, h.inRange⟩
  · rw [← h.total]
    exact List.length_map ..
  · rw [← h.inflight]
    exact List.length_map ..

theorem shape_step64 {addrs : List String} {s t : Sys} {e : Ev} (h : Shape addrs s) (hs : step64 asToken s e = some t) :
    Shape addrs t := by
  cases stepped64_of_step64 hs with
  | next => exact h.come (inRange_next _)
  | stats => exact h.come (h.addrs_eq ▸ inRange_stats (Nat.zero_le _))
  | run hk ha => exact (h.run hk ha).wrap

theorem act64_of_act (h : s.Valid) (ha : act asToken s pc a = some (s, pc')) : act64 asToken s pc a = some (s, pc') := by
  rw [act64, ha, Option.map_some, h.wrap_eq]

theorem isI64_modify {xs : List ℤ} (h : ∀ x ∈ xs, IsI64 x) (i : ℕ) (d : ℤ) : ∀ x ∈ xs.modify i (asI64 <| · + d), IsI64 x := by
  intro x hx
  rw [← map_asI64_fetchAddAt h] at hx
  obtain ⟨y, -, rfl⟩ := List.mem_map.1 hx
  exact isI64_asI64 y

theorem getElem?_load {i : ℕ} (hs : s.Valid) (hi : i < s.counters.addrs.length) :
    s.counters.inflight[i]? = some (load s.counters.inflight i) := by
  rw [← hs.inflight_length] at hi
  rw [List.getElem?_eq_getElem hi, load_of_getElem? (List.getElem?_eq_getElem hi)]

/-- `pick` that runs alone, at any place of the call before it. -/
theorem pick_alone (asToken : ℕ → ℤ) (h : s.Valid) (idx : ℕ) (seen : ℤ) : ∃ mid,
    act64 asToken s (.pickTotal idx seen) .fetchAdd = some (mid, .pickInflight idx seen) ∧
      act64 asToken mid (.pickInflight idx seen) .fetchAdd = some (s.picked idx, .held idx (asToken idx)) := by
  refine ⟨{ s with
    counters := { s.counters with total := s.counters.total.modify idx (asI64 <| · + 1) }
    log := s.log ++ [.addTotal idx] }, ?_, ?_⟩
  · simp only [act64, act, Option.map_some, Selector.wrap, Counters.wrap, map_asI64_fetchAddAt h.total, map_asI64 h.inflight]
  · simp only [act64, act, Option.map_some, Selector.wrap, Counters.wrap, map_asI64_fetchAddAt h.inflight,
      map_asI64 (isI64_modify h.total idx 1), Selector.picked, Counters.pick, List.append_assoc, List.cons_append,
      List.nil_append]

/-! ## Operations that have room -/

/-- A pick by this call does not find its total at `i64::MAX`. -/
def Pc.totalRoom (c : Counters) : Pc → Bool
  | .pickTotal idx _ => load c.total idx < 2 ^ 63 - 1
  | _ => true

/-- What this call subtracts leaves the total an `i64`. -/
def Pc.subRoom (c : Counters) : Pc → Bool
  | .statsSub total snap => IsI64 (load c.total snap.length - total)
  | _ => true

/-- A pick by this call does not find its load at `i64::MAX`. -/
def Pc.inflightRoom (c : Counters) : Pc → Bool
  | .pickInflight idx _ => load c.inflight idx < 2 ^ 63 - 1
  | _ => true

/-- The operation finds room in its counter. -/
def Room (room : Counters → Pc → Bool) (s : Sys) : Ev → Prop
  | .run k _ => ∀ pc ∈ s.tasks[k]?, room s.shared.counters pc = true
  | _ => True

instance (room : Counters → Pc → Bool) (s : Sys) (e : Ev) : Decidable (Room room s e) :=
  match e with
  | .run k _ => inferInstanceAs (Decidable (∀ pc ∈ s.tasks[k]?, room s.shared.counters pc = true))
  | .next => isTrue trivial
  | .stats _ => isTrue trivial

/-- Every counter is an `i64`. -/
structure Selector.Fit (s : Selector) : Prop where
  total : ∀ i, IsI64 (load s.counters.total i)
  inflight : ∀ i, IsI64 (load s.counters.inflight i)

theorem load_wrap (xs : List ℤ) (i : ℕ) : load (xs.map asI64) i = asI64 (load xs i) := by
  rw [load, load, List.getD_eq_getElem?_getD, List.getD_eq_getElem?_getD, List.getElem?_map]
  cases xs[i]? <;> rfl

theorem load_wrap_of_isI64 {xs : List ℤ} {i : ℕ} (h : IsI64 (load xs i)) : load (xs.map asI64) i = load xs i := by
  rw [load_wrap, asI64_eq h]

theorem map_asI64_of_load {xs : List ℤ} (h : ∀ i, IsI64 (load xs i)) : xs.map asI64 = xs := by
  refine map_asI64 fun x hx => ?_
  obtain ⟨i, hi⟩ := List.mem_iff_getElem?.1 hx
  rw [← load_of_getElem? hi]
  exact h i

theorem fit_wrap (s : Selector) : s.wrap.Fit := by
  refine ⟨fun i => ?_, fun i => ?_⟩
  · exact (load_wrap s.counters.total i).symm ▸ isI64_asI64 _
  · exact (load_wrap s.counters.inflight i).symm ▸ isI64_asI64 _

theorem fit_new (kind : Kind) (addrs : List String) : (Sys.new kind addrs).shared.Fit := by
  refine ⟨fun i => ?_, fun i => ?_⟩
  · exact (load_replicate addrs.length i).symm ▸ (by decide : IsI64 0)
  · exact (load_replicate addrs.length i).symm ▸ (by decide : IsI64 0)

theorem fit_step64 {s t : Sys} {e : Ev} (h : s.shared.Fit) (hs : step64 asToken s e = some t) : t.shared.Fit := by
  cases stepped64_of_step64 hs with
  | next => exact h
  | stats => exact h
  | run => exact fit_wrap _

theorem load_fetchAddAt_cases (xs : List ℤ) (i : ℕ) (d : ℤ) (k : ℕ) :
    load (fetchAddAt xs i d) k = load xs k ∨ i = k ∧ load (fetchAddAt xs i d) k = load xs k + d := by
  unfold load
  by_cases hi : i < xs.length
  · rw [getD_fetchAddAt hi]
    split_ifs with hik
    · exact .inr ⟨hik, rfl⟩
    · exact .inl (Int.add_zero _)
  · left
    rw [fetchAddAt, List.modify_eq_self (Nat.le_of_not_lt hi)]

theorem isI64_add_one {x : ℤ} (h : IsI64 x) (hlt : x < 2 ^ 63 - 1) : IsI64 (x + 1) := by
  unfold IsI64 at h ⊢
  omega

theorem isI64_fetchAddAt {xs : List ℤ} (h : ∀ i, IsI64 (load xs i)) {k : ℕ} {d : ℤ} (hroom : IsI64 (load xs k + d)) (i : ℕ) :
    IsI64 (load (fetchAddAt xs k d) i) := by
  rcases load_fetchAddAt_cases xs k d i with heq | ⟨rfl, heq⟩
  · rw [heq]
    exact h i
  · rw [heq]
    exact hroom

theorem Acted.fit_total (h : Acted asToken s pc a s' pc') (hfit : ∀ i, IsI64 (load s.counters.total i))
    (hadd : pc.totalRoom s.counters = true) (hsub : pc.subRoom s.counters = true) (i : ℕ) :
    IsI64 (load s'.counters.total i) := by
  cases h with
  | @pickTotal idx seen => exact isI64_fetchAddAt hfit (isI64_add_one (hfit idx) (of_decide_eq_true hadd)) i
  | @statsSub total snap =>
    have hroom : IsI64 (load s.counters.total snap.length - total) := of_decide_eq_true hsub
    exact isI64_fetchAddAt hfit hroom i
  | release =>
    simp only [total_release]
    exact hfit i
  | _ => exact hfit i

/-- A load with room for the operation stays an `i64`; what a release leaves depends on who holds the tokens. -/
theorem Acted.fit_inflight (h : Acted asToken s pc a s' pc') (hfit : ∀ i, IsI64 (load s.counters.inflight i))
    (hadd : pc.inflightRoom s.counters = true) (hrelease : a = .release → ∀ i, IsI64 (load s'.counters.inflight i)) (i : ℕ) :
    IsI64 (load s'.counters.inflight i) := by
  cases h with
  | @pickInflight idx seen => exact isI64_fetchAddAt hfit (isI64_add_one (hfit idx) (of_decide_eq_true hadd)) i
  | release => exact hrelease rfl i
  | _ => exact hfit i

/-! ## A call alone -/

theorem step64_last {g g' : Selector} (tasks : List Pc) (h : act64 asToken g pc a = some (g', pc')) :
    step64 asToken ⟨g, tasks ++ [pc]⟩ (.run tasks.length a) = some ⟨g', tasks ++ [pc']⟩ := by
  simp [step64, runLocal, h]

theorem Selector.Valid.picked (h : s.Valid) (idx : ℕ) : (s.picked idx).Valid := by
  refine ⟨?_, ?_, isI64_modify h.total idx 1, isI64_modify h.inflight idx 1⟩
  · simpa [Selector.picked, Counters.pick] using h.total_length
  · simpa [Selector.picked, Counters.pick] using h.inflight_length

theorem outcome_injective {asToken' : ℕ → ℤ} {i j : ℕ} (hs : s.Valid) (hi : i < s.counters.addrs.length)
    (h : (outcome asToken s i).map Prod.fst = (outcome asToken' s j).map Prod.fst) : i = j := by
  rw [outcome, List.getElem?_eq_getElem hi, Option.map_some, Option.map_some] at h
  obtain ⟨_, hr, hpick⟩ := Option.map_eq_some_iff.1 h.symm
  obtain ⟨addr, -, rfl⟩ := Option.map_eq_some_iff.1 hr
  rw [← hs.total_length] at hi
  exact Counters.pick_injective hi hpick.symm

end Selectors

end ServiceProxy.Upstream
