import ServiceProxy.Upstream.RoundRobin
import ServiceProxy.Upstream.Wrapping

/-!
# How `CountingRoundRobin` spreads the calls

Calls of `CountingRoundRobin::next`, `release` and `stats` at once, one atomic operation at a time, with counters that wrap;
`release` is called with any token, not only with those that `next` has returned.

* `Numbered` — a call draws a number from `counter` and picks the upstream of that number, whatever the others do;
* `Totals` — without a reset, a total is the number of calls that drew a number of that upstream, less those that are about
  to count themselves, as an `i64`;
* `Reporting` — from there on, a `stats` call reports these totals.
-/

namespace ServiceProxy.Upstream.Selectors.CountingRoundRobin

open ServiceProxy.Lib

/-! ## The code -/

/-- What happens: a step of the selector, or a call of `release`. -/
inductive Call
  | ev (e : Ev)
  | release (token : ℤ)
  deriving DecidableEq, Repr

/-- One step.  `release` is one operation; an index out of range panics. -/
def step (asToken : ℕ → ℤ) (s : Sys) : Call → Option Sys
  | .ev e => step64 asToken s e
  | .release token =>
    if token < s.shared.counters.inflight.length then
      some ⟨{ s.shared with counters := (s.shared.counters.release token).wrap }, s.tasks⟩
    else none

/-- What is seen of a step: the number that a call draws from `counter`, the upstream and the address that it returns. -/
def seen (s : Sys) : Call → List (Note String)
  | .ev (.run k _) =>
    match s.tasks[k]? with
    | some .roundRobin => [.drew k s.shared.counter]
    | some (.pickInflight idx _) => ((s.shared.counters.addrs[idx]?).map (Note.took k idx)).toList
    | _ => []
  | .ev .next | .ev (.stats _) | .release _ => []

/-! ## Numbers -/

/-- The call is to draw. -/
def waits : Pc → ℕ
  | .roundRobin => 1
  | _ => 0

/-- The upstream that the call is to pick. -/
def picks : Pc → Option ℕ
  | .pickTotal idx _ | .pickInflight idx _ => some idx
  | _ => none

/-- A place of a call of this selector. -/
def Own : Pc → Prop
  | .leastFirst | .leastScan .. | .p2cDraw | .p2cOther .. | .p2cOwn .. => False
  | _ => True

/-- **The invariant of the numbers.** -/
structure Numbered (addrs : List String) (notes : List (Note String)) (es : List Call) (s : Sys) : Prop where
  shape : Shape addrs s
  kind : s.shared.kind = .countingRoundRobin
  own : ∀ pc ∈ s.tasks, Own pc
  ticketed : Ticketed (2 ^ 64) addrs waits picks (es.count (.ev .next)) s.shared.counter notes s.tasks

variable {asToken : ℕ → ℤ} {addrs : List String} {notes : List (Note String)} {es fs : List Call} {s t u : Sys} {c : Call}
  {pc pc' : Pc} {a : Act} {sel : Selector} {k q i n : ℕ}

theorem own_stats (reset : Bool) (snap : List UpstreamStat) : Own (stats n reset snap) := by
  unfold stats
  split_ifs <;> trivial

theorem waits_stats (reset : Bool) (snap : List UpstreamStat) : waits (stats n reset snap) = 0 := by
  unfold stats
  split_ifs <;> rfl

theorem picks_stats (reset : Bool) (snap : List UpstreamStat) : picks (stats n reset snap) = none := by
  unfold stats
  split_ifs <;> rfl

theorem own_act (hown : Own pc) (ha : Acted asToken s.shared pc a sel pc') :
    Own pc' ∧ sel.kind = s.shared.kind := by
  cases ha with
  | leastFirst | less | tie | more | p2cDraw | p2cOther | p2cOwn => exact hown.elim
  | statsLoad =>
    refine ⟨?_, rfl⟩
    split_ifs <;> trivial
  | statsInflight => exact ⟨own_stats .., rfl⟩
  | _ => exact ⟨trivial, rfl⟩

theorem shape_release (h : Shape addrs s) (token : ℤ) :
    Shape addrs ⟨{ s.shared with counters := s.shared.counters.release token }, s.tasks⟩ := by
  refine ⟨(addrs_release ..).trans h.addrs_eq, ?_, (length_release ..).trans h.inflight, h.inRange⟩
  rw [total_release]
  exact h.total

theorem ticketed_act {called : ℕ}
    (h : Ticketed (2 ^ 64) addrs waits picks called s.shared.counter notes s.tasks) (hshape : Shape addrs s)
    (hown : Own pc) (hk : s.tasks[k]? = some pc) (ha : Acted asToken s.shared pc a sel pc') :
    Ticketed (2 ^ 64) addrs waits picks called sel.counter (notes ++ seen s (.ev (.run k a))) (s.tasks.set k pc') := by
  have hquiet : waits pc' = waits pc → picks pc' = picks pc → sel.counter = s.shared.counter →
      seen s (.ev (.run k a)) = [] →
      Ticketed (2 ^ 64) addrs waits picks called sel.counter (notes ++ seen s (.ev (.run k a))) (s.tasks.set k pc') := by
    intro hwaits hpicks hcounter hseen
    rw [hseen, List.append_nil, hcounter]
    exact h.quiet hk hwaits hpicks
  cases ha with
  | roundRobin hn =>
    rw [seen, hk]
    apply h.draw hk <;> simp only [waits, picks, hshape.addrs_eq]
  | pickInflight =>
    obtain ⟨addr, haddr⟩ : ∃ addr, addrs[_]? = some addr :=
      ⟨_, List.getElem?_eq_getElem (hshape.inRange _ (List.mem_of_getElem? hk))⟩
    rw [seen, hk]
    simp only [hshape.addrs_eq, haddr, Option.map_some, Option.toList_some]
    exact h.take hk rfl rfl rfl haddr
  | leastFirst | less | tie | more | p2cDraw | p2cOther | p2cOwn => exact hown.elim
  | @statsLoad reset =>
    refine hquiet ?_ ?_ rfl (by rw [seen, hk])
    · cases reset <;> rfl
    · cases reset <;> rfl
  | statsInflight => exact hquiet (waits_stats ..) (picks_stats ..) rfl (by rw [seen, hk])
  | pickTotal | release | statsSub => exact hquiet rfl rfl rfl (by rw [seen, hk])

/-- **Every step keeps the invariant of the numbers.** -/
theorem numbered_step (h : Numbered addrs notes es s) (hs : step asToken s c = some t) :
    Numbered addrs (notes ++ seen s c) (es ++ [c]) t := by
  obtain ⟨hshape, hkind, hown, h⟩ := h
  have hother : ∀ c, c ≠ Call.ev .next → (es ++ [c]).count (.ev .next) = es.count (.ev .next) :=
    fun c hc => count_concat_of_ne hc es
  cases c with
  | release token =>
    simp only [step, Option.ite_none_right_eq_some, Option.some.injEq] at hs
    obtain ⟨-, rfl⟩ := hs
    refine ⟨?_, hkind, hown, ?_⟩
    · exact (shape_release hshape token).wrap
    · rwa [hother _ (by simp), seen, List.append_nil]
  | ev e =>
    have hshape' := shape_step64 hshape hs
    cases stepped64_of_step64 hs with
    | next =>
      rw [hkind] at hshape' ⊢
      refine ⟨hshape', hkind, forall_mem_concat hown trivial, ?_⟩
      rw [List.count_append, List.count_singleton_self, seen, List.append_nil]
      exact h.come (t := .roundRobin) rfl
    | @stats reset =>
      have hnone := h.come (picks_stats (n := s.shared.counters.addrs.length) reset [])
      rw [waits_stats, Nat.add_zero] at hnone
      refine ⟨hshape', hkind, forall_mem_concat hown (own_stats ..), ?_⟩
      rwa [hother _ (by simp), seen, List.append_nil]
    | run hk ha =>
      have hpc := hown _ (List.mem_of_getElem? hk)
      obtain ⟨hpc', hkind'⟩ := own_act hpc ha
      refine ⟨hshape', hkind'.trans hkind, forall_mem_set hown hpc' _, ?_⟩
      have hact := ticketed_act h hshape hpc hk ha
      rwa [hother _ (by simp)]

theorem numbered_new (addrs : List String) : Numbered addrs [] [] (Sys.new .countingRoundRobin addrs) :=
  ⟨shape_new .countingRoundRobin addrs, rfl, fun _ h => absurd h List.not_mem_nil, ticketed_nil⟩

theorem waits_of_idle (h : pc.busy = 0) : waits pc = 0 ∧ picks pc = none := by
  cases pc with
  | roundRobin | pickTotal | pickInflight => cases h
  | _ => exact ⟨rfl, rfl⟩

/-! ## Totals -/

/-- The call is about to count itself for the upstream `i`. -/
def uncounted (i : ℕ) : Pc → ℕ
  | .pickTotal idx _ => if idx = i then 1 else 0
  | _ => 0

/-- The call is one of `stats(true)`. -/
def resets : Pc → Bool
  | .statsLoad reset _ | .statsInflight reset _ _ | .statsDone reset _ => reset
  | .statsSub .. => true
  | _ => false

/-- **The invariant of the totals**, without a reset. -/
structure Totals (n : ℕ) (notes : List (Note String)) (s : Sys) : Prop where
  unreset : ∀ pc ∈ s.tasks, resets pc = false
  total : ∀ i < n, load s.shared.counters.total i =
    asI64 (((drawn notes).map fun d => d.2 % n).count i - tally (uncounted i) s.tasks)

theorem resets_stats (reset : Bool) (snap : List UpstreamStat) : resets (stats n reset snap) = reset := by
  unfold stats
  split_ifs <;> rfl

theorem uncounted_stats (reset : Bool) (snap : List UpstreamStat) : uncounted i (stats n reset snap) = 0 := by
  unfold stats
  split_ifs <;> rfl

theorem resets_act (hown : Own pc) (h : resets pc = false) (ha : Acted asToken s.shared pc a sel pc') :
    resets pc' = false := by
  cases ha with
  | leastFirst | less | tie | more | p2cDraw | p2cOther | p2cOwn => exact hown.elim
  | statsLoad =>
    obtain rfl : _ = false := h
    rfl
  | statsInflight =>
    obtain rfl : _ = false := h
    exact resets_stats ..
  | statsSub => cases h
  | _ => rfl

theorem Totals.quiet (h : Totals n notes s) (hk : s.tasks[k]? = some pc) (hpc' : resets pc' = false)
    (hsel : sel.counters.total = s.shared.counters.total) (hcounted : ∀ i, uncounted i pc' = uncounted i pc) :
    Totals n notes ⟨sel.wrap, s.tasks.set k pc'⟩ := by
  refine ⟨forall_mem_set h.unreset hpc' k, fun i hi => ?_⟩
  have hset := tally_set (uncounted i) hk pc'
  have hsame : tally (uncounted i) (s.tasks.set k pc') = tally (uncounted i) s.tasks := by
    have := hcounted i
    omega
  have hload := load_wrap sel.counters.total i
  rw [hsel, h.total i hi, asI64_asI64, ← hsame, ← hsel] at hload
  exact hload

theorem totals_act (h : Totals addrs.length notes s) (hshape : Shape addrs s) (hown : Own pc)
    (hk : s.tasks[k]? = some pc) (ha : Acted asToken s.shared pc a sel pc') :
    Totals addrs.length (notes ++ seen s (.ev (.run k a))) ⟨sel.wrap, s.tasks.set k pc'⟩ := by
  have hmem := List.mem_of_getElem? hk
  have hpc' := resets_act hown (h.unreset pc hmem) ha
  have hrange := hshape.inRange pc hmem
  have hunreset : ∀ q ∈ s.tasks.set k pc', resets q = false := forall_mem_set h.unreset hpc' k
  have hdrawn : ∀ more, drawn more = [] → Totals addrs.length notes ⟨sel.wrap, s.tasks.set k pc'⟩ →
      Totals addrs.length (notes ++ more) ⟨sel.wrap, s.tasks.set k pc'⟩ := by
    intro more hmore ht
    refine ⟨ht.unreset, fun i hi => ?_⟩
    rw [drawn_append, hmore, List.append_nil]
    exact ht.total i hi
  cases ha with
  | roundRobin hn =>
    -- one number more, one call more that has not counted itself
    refine ⟨hunreset, fun i hi => ?_⟩
    have hset := tally_set (uncounted i) hk (.pickTotal (s.shared.counter % s.shared.counters.addrs.length) 0)
    simp only [uncounted, hshape.addrs_eq] at hset
    have hload := load_wrap s.shared.counters.total i
    rw [h.total i hi, asI64_asI64] at hload
    refine hload.trans (congrArg asI64 ?_)
    simp only [seen, hk, drawn_append, drawn_drew, List.map_append, List.map_singleton, List.count_append,
      List.count_singleton, beq_iff_eq, hshape.addrs_eq]
    split_ifs at hset ⊢ <;> omega
  | @pickTotal idx seenLoad =>
    -- the call counts itself
    have hnone : drawn (seen s (.ev (.run k .fetchAdd))) = [] := by rw [seen, hk]; rfl
    refine hdrawn _ hnone ⟨hunreset, fun i hi => ?_⟩
    have hset := tally_set (uncounted i) hk (.pickInflight idx seenLoad)
    simp only [uncounted] at hset
    have hlt : idx < s.shared.counters.total.length := by
      rw [hshape.total]
      exact hrange
    have hadd : load (fetchAddAt s.shared.counters.total idx 1) i =
        load s.shared.counters.total i + if idx = i then 1 else 0 := getD_fetchAddAt hlt 1 i
    have hload := load_wrap (fetchAddAt s.shared.counters.total idx 1) i
    rw [hadd, h.total i hi, asI64_asI64_add] at hload
    refine hload.trans (congrArg asI64 ?_)
    simp only
    split_ifs at hset ⊢ <;> omega
  | @pickInflight idx =>
    refine hdrawn _ ?_ (h.quiet hk hpc' rfl fun i => rfl)
    rw [seen, hk]
    simp only
    cases s.shared.counters.addrs[idx]? <;> rfl
  | leastFirst | less | tie | more | p2cDraw | p2cOther | p2cOwn => exact hown.elim
  | release =>
    refine hdrawn _ (by rw [seen, hk]; rfl) (h.quiet hk hpc' (total_release ..) fun i => rfl)
  | @statsLoad reset =>
    refine hdrawn _ (by rw [seen, hk]; rfl) (h.quiet hk hpc' rfl fun i => ?_)
    cases reset <;> rfl
  | statsSub => cases h.unreset _ hmem
  | statsInflight =>
    refine hdrawn _ (by rw [seen, hk]; rfl) (h.quiet hk hpc' rfl fun i => ?_)
    exact uncounted_stats ..

/-- **Every step but a reset keeps the invariant of the totals.** -/
theorem totals_step (h : Totals addrs.length notes s) (hnum : Numbered addrs notes es s) (hc : c ≠ .ev (.stats true))
    (hs : step asToken s c = some t) : Totals addrs.length (notes ++ seen s c) t := by
  have hcome : ∀ pc, resets pc = false → (∀ i, uncounted i pc = 0) →
      Totals addrs.length notes ⟨s.shared, s.tasks ++ [pc]⟩ := by
    intro pc hpc hcounted
    refine ⟨forall_mem_concat h.unreset hpc, fun i hi => ?_⟩
    rw [tally_append, tally_cons, tally_nil, hcounted i]
    exact h.total i hi
  cases c with
  | release token =>
    simp only [step, Option.ite_none_right_eq_some, Option.some.injEq] at hs
    obtain ⟨-, rfl⟩ := hs
    refine ⟨h.unreset, fun i hi => ?_⟩
    have hload := load_wrap (s.shared.counters.release token).total i
    rw [total_release, h.total i hi, asI64_asI64, ← total_release _ token] at hload
    rw [seen, List.append_nil]
    exact hload
  | ev e =>
    cases stepped64_of_step64 hs with
    | next =>
      rw [hnum.kind, seen, List.append_nil]
      exact hcome _ rfl fun i => rfl
    | @stats reset =>
      obtain rfl : reset = false := by
        cases reset with
        | true => exact absurd rfl hc
        | false => rfl
      rw [seen, List.append_nil]
      exact hcome _ (resets_stats ..) fun i => uncounted_stats ..
    | run hk ha => exact totals_act h hnum.shape (hnum.own _ (List.mem_of_getElem? hk)) hk ha

/-! ## Whole runs -/

/-- What is seen of a run. -/
def notesOf (asToken : ℕ → ℤ) (addrs : List String) (es : List Call) : List (Note String) :=
  trace (step asToken) seen (Sys.new .countingRoundRobin addrs) es

theorem totals_new (addrs : List String) : Totals addrs.length [] (Sys.new .countingRoundRobin addrs) := by
  refine ⟨fun _ h => absurd h List.not_mem_nil, fun i _ => ?_⟩
  have hzero : load (Sys.new .countingRoundRobin addrs).shared.counters.total i = 0 := load_new i
  rw [hzero]
  exact (asI64_eq (by simp [IsI64])).symm

theorem run_invariant (h : Run (step asToken) Any (Sys.new .countingRoundRobin addrs) es s) :
    Numbered addrs (notesOf asToken addrs es) es s ∧
      (.ev (.stats true) ∉ es → Totals addrs.length (notesOf asToken addrs es) s) := by
  refine h.observed (J := fun os fs u => Numbered addrs os fs u ∧ (.ev (.stats true) ∉ fs → Totals addrs.length os u))
    ⟨numbered_new addrs, fun _ => totals_new addrs⟩ ?_
  rintro os fs u c v ⟨hnum, htotals⟩ - hs
  refine ⟨numbered_step hnum hs, fun hfs => ?_⟩
  have hold : .ev (.stats true) ∉ fs := fun hmem => hfs (List.mem_append_left _ hmem)
  have hnew : c ≠ .ev (.stats true) := fun heq => hfs (List.mem_append_right _ (List.mem_singleton.2 heq.symm))
  exact totals_step (htotals hold) hnum hnew hs

/-- **Every call draws its own number and picks the upstream of that number**, when all calls have returned. -/
theorem orderly_of_run (h : Run (step asToken) Any (Sys.new .countingRoundRobin addrs) es s)
    (hk : es.count (.ev .next) ≤ 2 ^ 64) (hdone : ∀ pc ∈ s.tasks, pc.busy = 0) :
    Orderly addrs (es.count (.ev .next)) (notesOf asToken addrs es) :=
  (run_invariant h).1.ticketed.orderly hk (fun pc hpc => (waits_of_idle (hdone pc hpc)).1)
    fun pc hpc => (waits_of_idle (hdone pc hpc)).2

/-- **The totals**, when all calls have returned and there was no reset. -/
theorem total_of_run (h : Run (step asToken) Any (Sys.new .countingRoundRobin addrs) es s)
    (hk : es.count (.ev .next) ≤ 2 ^ 64) (hdone : ∀ pc ∈ s.tasks, pc.busy = 0) (hreset : .ev (.stats true) ∉ es)
    (hi : i < addrs.length) : load s.shared.counters.total i =
      asI64 (((es.count (.ev .next) - i + (addrs.length - 1)) / addrs.length : ℕ) : ℤ) := by
  have hidle : tally (uncounted i) s.tasks = 0 := by
    refine tally_eq_zero_iff.2 fun pc hpc => ?_
    have hbusy := hdone pc hpc
    cases pc with
    | pickTotal => cases hbusy
    | _ => rfl
  have hnumbers := (orderly_of_run h hk hdone).numbers
  have hmap : ((drawn (notesOf asToken addrs es)).map fun d => d.2 % addrs.length) =
      (List.range (es.count (.ev .next))).map (· % addrs.length) := by
    rw [← hnumbers, List.map_map]
    rfl
  rw [((run_invariant h).2 hreset).total i hi, hidle, hmap, count_mod hi, Int.natCast_zero, Int.sub_zero]

/-! ## What `stats` reports -/

/-- The snapshot so far holds the addresses and these totals. -/
def Right (addrs : List String) (totals : ℕ → ℤ) (snap : List UpstreamStat) : Prop :=
  ∀ i stat, snap[i]? = some stat → addrs[i]? = some stat.addr ∧ stat.total = totals i

/-- A call of `stats(false)` that reports these totals. -/
def Reports (addrs : List String) (totals : ℕ → ℤ) : Pc → Prop
  | .statsLoad false snap => Right addrs totals snap ∧ snap.length < addrs.length
  | .statsInflight false total snap =>
    Right addrs totals snap ∧ snap.length < addrs.length ∧ total = totals snap.length
  | .statsDone false snap => Right addrs totals snap ∧ snap.length = addrs.length
  | _ => False

/-- **The invariant**, when no call of `next` is in progress and the call `q` is one of `stats(false)`. -/
structure Reporting (addrs : List String) (totals : ℕ → ℤ) (q : ℕ) (s : Sys) : Prop where
  shape : Shape addrs s
  idle : ∀ pc ∈ s.tasks, pc.busy = 0
  unreset : ∀ pc ∈ s.tasks, resets pc = false
  total : ∀ i < addrs.length, load s.shared.counters.total i = totals i
  reports : ∃ pc, s.tasks[q]? = some pc ∧ Reports addrs totals pc

theorem right_append {totals : ℕ → ℤ} {snap : List UpstreamStat} {stat : UpstreamStat} (h : Right addrs totals snap)
    (haddr : addrs[snap.length]? = some stat.addr) (htotal : stat.total = totals snap.length) :
    Right addrs totals (snap ++ [stat]) := by
  intro i stat' hi
  rw [List.getElem?_append] at hi
  split_ifs at hi with hlt
  · exact h i stat' hi
  · obtain ⟨hlen, hone⟩ := List.getElem?_eq_some_iff.1 hi
    rw [List.length_singleton] at hlen
    obtain rfl : i = snap.length := by omega
    simp only [List.getElem_singleton] at hone
    exact hone ▸ ⟨haddr, htotal⟩

theorem reports_stats {totals : ℕ → ℤ} {snap : List UpstreamStat} (h : Right addrs totals snap)
    (hlen : snap.length ≤ addrs.length) : Reports addrs totals (stats addrs.length false snap) := by
  unfold stats
  split_ifs with hlt
  · exact ⟨h, hlt⟩
  · exact ⟨h, by omega⟩

section Reporting

variable {totals : ℕ → ℤ}

theorem Reporting.quiet (h : Reporting addrs totals q s) (htotals : ∀ i, IsI64 (totals i))
    (hshape : Shape addrs ⟨sel.wrap, s.tasks.set k pc'⟩) (hsel : sel.counters.total = s.shared.counters.total)
    (hbusy : pc'.busy = 0) (hreset : resets pc' = false)
    (hreports : ∀ pc, s.tasks[k]? = some pc → Reports addrs totals pc → Reports addrs totals pc') :
    Reporting addrs totals q ⟨sel.wrap, s.tasks.set k pc'⟩ := by
  refine ⟨hshape, forall_mem_set h.idle hbusy k, forall_mem_set h.unreset hreset k, fun i hi => ?_, ?_⟩
  · have hload := load_wrap sel.counters.total i
    rw [hsel, h.total i hi, asI64_eq (htotals i), ← hsel] at hload
    exact hload
  · obtain ⟨pc, hq, hpc⟩ := h.reports
    by_cases hkq : k = q
    · subst hkq
      exact ⟨pc', List.getElem?_set_self (List.getElem?_eq_some_iff.1 hq).1, hreports pc hq hpc⟩
    · exact ⟨pc, by rw [List.getElem?_set_ne hkq, hq], hpc⟩

/-- **Every step but a call of `next` and a reset keeps the invariant.** -/
theorem reporting_step (h : Reporting addrs totals q s) (htotals : ∀ i, IsI64 (totals i))
    (hc : c ≠ .ev .next ∧ c ≠ .ev (.stats true)) (hs : step asToken s c = some t) : Reporting addrs totals q t := by
  cases c with
  | release token =>
    simp only [step, Option.ite_none_right_eq_some, Option.some.injEq] at hs
    obtain ⟨-, rfl⟩ := hs
    refine ⟨(shape_release h.shape token).wrap, h.idle, h.unreset, fun i hi => ?_, h.reports⟩
    have hload := load_wrap (s.shared.counters.release token).total i
    rw [total_release, h.total i hi, asI64_eq (htotals i), ← total_release _ token] at hload
    exact hload
  | ev e =>
    have hshape := shape_step64 h.shape hs
    cases stepped64_of_step64 hs with
    | next => exact absurd rfl hc.1
    | @stats reset =>
      obtain rfl : reset = false := by
        cases reset with
        | true => exact absurd rfl hc.2
        | false => rfl
      obtain ⟨pc, hq, hpc⟩ := h.reports
      refine ⟨hshape, forall_mem_concat h.idle (busy_stats ..), forall_mem_concat h.unreset (resets_stats ..), h.total, ?_⟩
      exact ⟨pc, by rw [List.getElem?_append_left (List.getElem?_eq_some_iff.1 hq).1, hq], hpc⟩
    | @run k a pc pc' sel hk ha =>
      have hbusy := h.idle pc (List.mem_of_getElem? hk)
      have hreset := h.unreset pc (List.mem_of_getElem? hk)
      have hat : ∀ r, s.tasks[k]? = some r → pc = r := fun r hr => Option.some.inj (hk.symm.trans hr)
      cases ha with
      | roundRobin | leastFirst | less | tie | more | p2cDraw | p2cOther | p2cOwn | pickTotal | pickInflight => cases hbusy
      | statsSub => cases hreset
      | release =>
        refine h.quiet htotals hshape (total_release ..) rfl rfl fun r hr hrep => ?_
        obtain rfl := hat r hr
        exact hrep
      | @statsLoad reset tie snap total htotal =>
        obtain rfl : reset = false := hreset
        refine h.quiet htotals hshape rfl rfl rfl fun r hr hrep => ?_
        obtain rfl := hat r hr
        exact ⟨hrep.1, hrep.2, by rw [← load_of_getElem? htotal, h.total _ hrep.2]⟩
      | @statsInflight reset tie total inflight snap addr haddr =>
        obtain rfl : reset = false := hreset
        refine h.quiet htotals hshape rfl (busy_stats ..) (resets_stats ..) fun r hr hrep => ?_
        obtain rfl := hat r hr
        rw [h.shape.addrs_eq] at haddr ⊢
        refine reports_stats (right_append hrep.1 haddr hrep.2.2) ?_
        rw [List.length_append]
        exact hrep.2.1

end Reporting

/-- How many of `k` calls are for the upstream `i` of `n`: `(k - i) / n`, rounded up. -/
def share (n k i : ℕ) : ℕ := (k - i + (n - 1)) / n

/-- **What `stats` reports** after all calls, when there was no reset. -/
theorem reported (h : Run (step asToken) Any (Sys.new .countingRoundRobin addrs) es s)
    (hk : es.count (.ev .next) ≤ 2 ^ 64) (hdone : ∀ pc ∈ s.tasks, pc.busy = 0) (hreset : .ev (.stats true) ∉ es)
    (hstats : step asToken s (.ev (.stats false)) = some t) (hrun : Run (step asToken) Any t fs u)
    (hnext : .ev .next ∉ fs) (hreset' : .ev (.stats true) ∉ fs) :
    Reporting addrs (fun i => asI64 (share addrs.length (es.count (.ev .next)) i : ℕ)) s.tasks.length u := by
  obtain ⟨hnum, htotals⟩ := run_invariant h
  have hfs : ∀ c ∈ fs, c ≠ .ev .next ∧ c ≠ .ev (.stats true) := by
    intro c hc
    exact ⟨fun heq => hnext (heq ▸ hc), fun heq => hreset' (heq ▸ hc)⟩
  refine (hrun.of_mem hfs).invariant ?_ fun v c w hv hc hs => reporting_step hv (fun i => isI64_asI64 _) hc hs
  -- the call of `stats` comes
  have hshape : Shape addrs t := shape_step64 hnum.shape (show step64 asToken s (.stats false) = some t from hstats)
  obtain rfl : _ = t := by simpa [step, step64, Selectors.step] using hstats
  have htotal : ∀ i < addrs.length, load s.shared.counters.total i =
      asI64 (share addrs.length (es.count (.ev .next)) i : ℕ) := fun i hi => total_of_run h hk hdone hreset hi
  refine ⟨hshape, forall_mem_concat hdone (busy_stats ..),
    forall_mem_concat (htotals hreset).unreset (resets_stats ..), htotal, _, List.getElem?_concat_length, ?_⟩
  rw [hnum.shape.addrs_eq]
  exact reports_stats (fun i stat hi => by simp at hi) (Nat.zero_le _)

/-! ## Fairness -/

/-- Every upstream gets its share of `k` calls, and any two get the same share, up to one. -/
def Fair (n k : ℕ) (notes : List (Note String)) : Prop :=
  (∀ i < n, ((taken notes).map Prod.snd).count i = share n k i) ∧
    ∀ i < n, ∀ j < n, ((taken notes).map Prod.snd).count i ≤ ((taken notes).map Prod.snd).count j + 1

theorem fair_of_orderly (h : Orderly addrs k notes) : Fair addrs.length k notes :=
  ⟨fun _ hi => h.count_taken hi, fun _ hi _ hj => h.count_taken_le hi hj⟩

/-- **Round-robin is fair, with or without counting.**  After `k` calls of `next`, interleaved with anything else, every
upstream has its share; both selectors return the same addresses, as a multiset and in the order of the counter; and, without a
reset, a call of `stats` that begins then reports the shares, as `i64`s. -/
theorem roundRobin_fair {rs : List RoundRobin.Ev} {r : RoundRobin.Sys} (hk : k ≤ 2 ^ 64)
    (h : Run (step asToken) Any (Sys.new .countingRoundRobin addrs) es s) (hnext : es.count (.ev .next) = k)
    (hdone : ∀ pc ∈ s.tasks, pc.busy = 0)
    (hr : Run RoundRobin.step Any (RoundRobin.Sys.new addrs) rs r) (hnextr : rs.count .next = k)
    (hdoner : ∀ pc ∈ r.tasks, pc.busy = 0) :
    Fair addrs.length k (notesOf asToken addrs es) ∧ Fair addrs.length k (RoundRobin.notesOf addrs rs) ∧
      (items (notesOf asToken addrs es)).Perm (items (RoundRobin.notesOf addrs rs)) ∧
      (∀ c < k, ∃ addr, itemAt (notesOf asToken addrs es) c = some addr ∧ itemAt (RoundRobin.notesOf addrs rs) c = some addr) ∧
      (.ev (.stats true) ∉ es → ∀ t fs u snap, step asToken s (.ev (.stats false)) = some t →
        Run (step asToken) Any t fs u → .ev .next ∉ fs → .ev (.stats true) ∉ fs →
        u.tasks[s.tasks.length]? = some (.statsDone false snap) → snap.length = addrs.length ∧
          ∀ i stat, snap[i]? = some stat → addrs[i]? = some stat.addr ∧ stat.total = asI64 (share addrs.length k i)) := by
  subst hnext
  have hcounting := orderly_of_run h hk hdone
  have hplain := RoundRobin.orderly_of_run hr (hnextr ▸ hk) hdoner
  rw [hnextr] at hplain
  refine ⟨fair_of_orderly hcounting, fair_of_orderly hplain, ?_, ?_, ?_⟩
  · exact hcounting.perm_items.trans hplain.perm_items.symm
  · intro c hc
    obtain ⟨addr, haddr⟩ := hplain.exists_item hc
    exact ⟨addr, (hcounting.itemAt_eq hc).trans haddr, (hplain.itemAt_eq hc).trans haddr⟩
  · intro hreset t fs u snap hstats hrun hnone hreset' hsnap
    obtain ⟨pc, hpc, hreports⟩ := (reported h hk hdone hreset hstats hrun hnone hreset').reports
    obtain rfl := Option.some.inj (hsnap.symm.trans hpc)
    exact ⟨hreports.2, hreports.1⟩

/-- Three calls, the second one before the first; a token is given back twice. -/
def mixedCalls : List Call :=
  [.ev .next, .ev .next, .ev (.run 1 .fetchAdd), .ev (.run 0 .fetchAdd), .ev (.stats false), .ev (.run 1 .fetchAdd),
    .ev (.run 1 .fetchAdd), .release 0, .ev .next, .ev (.run 3 .fetchAdd), .ev (.run 0 .fetchAdd), .ev (.run 3 .fetchAdd),
    .release 0, .ev (.run 2 (.load false)), .ev (.run 0 .fetchAdd), .ev (.run 3 .fetchAdd)]

/-- The same calls of `RoundRobin`. -/
def plainCalls : List RoundRobin.Ev :=
  [.next, .next, .next, .run 2, .run 0, .run 0, .run 1, .release 7, .run 2, .run 1]

theorem roundRobin_fair_three : ∃ s r, Run (step asI32) Any (Sys.new .countingRoundRobin ["a", "b"]) mixedCalls s ∧
    Run RoundRobin.step Any (RoundRobin.Sys.new ["a", "b"]) plainCalls r ∧
      Fair 2 3 (notesOf asI32 ["a", "b"] mixedCalls) := by
  have hrun : Run (step asI32) Any (Sys.new .countingRoundRobin ["a", "b"]) mixedCalls _ := Run.of_exec_get (by decide)
  have hplain : Run RoundRobin.step Any (RoundRobin.Sys.new ["a", "b"]) plainCalls _ := Run.of_exec_get (by decide)
  exact ⟨_, _, hrun, hplain, (roundRobin_fair (k := 3) (by omega) hrun rfl (by decide) hplain rfl (by decide)).1⟩

/-! ## Totals are `i64`s -/

theorem step_last {g g' : Selector} (tasks : List Pc) (h : act64 asToken g pc a = some (g', pc')) :
    step asToken ⟨g, tasks ++ [pc]⟩ (.ev (.run tasks.length a)) = some ⟨g', tasks ++ [pc']⟩ := step64_last tasks h

theorem run_next (asToken : ℕ → ℤ) (hkind : s.shared.kind = .countingRoundRobin) (hn : s.shared.counters.addrs.length ≠ 0) :
    ∃ g idx token, Run (step asToken) Any s [.ev .next, .ev (.run s.tasks.length .fetchAdd),
      .ev (.run s.tasks.length .fetchAdd), .ev (.run s.tasks.length .fetchAdd)] ⟨g, s.tasks ++ [.held idx token]⟩ := by
  have hcome : step asToken s (.ev .next) = some ⟨s.shared, s.tasks ++ [.roundRobin]⟩ := by
    simp [step, step64, Selectors.step, hkind, Kind.next]
  obtain ⟨g1, idx, hdraw⟩ : ∃ g idx, act64 asToken s.shared .roundRobin .fetchAdd = some (g, .pickTotal idx 0) :=
    ⟨_, _, congrArg (Option.map _) (if_neg hn)⟩
  obtain ⟨g2, htotal⟩ : ∃ g, act64 asToken g1 (.pickTotal idx 0) .fetchAdd = some (g, .pickInflight idx 0) := ⟨_, rfl⟩
  obtain ⟨g3, hinflight⟩ : ∃ g, act64 asToken g2 (.pickInflight idx 0) .fetchAdd = some (g, .held idx (asToken idx)) :=
    ⟨_, rfl⟩
  have hrun := (Run.one (P := Any) trivial hcome).snoc trivial (step_last s.tasks hdraw)
  exact ⟨g3, idx, asToken idx, (hrun.snoc trivial (step_last s.tasks htotal)).snoc trivial (step_last s.tasks hinflight)⟩

theorem exists_calls (k : ℕ) : ∃ es s, Run (step asI32) Any (Sys.new .countingRoundRobin ["a"]) es s ∧
    es.count (.ev .next) = k ∧ (∀ pc ∈ s.tasks, pc.busy = 0) ∧ .ev (.stats true) ∉ es := by
  induction k with
  | zero => exact ⟨[], _, .nil, rfl, by simp [Sys.new], by simp⟩
  | succ k ih =>
    obtain ⟨es, s, hrun, hcount, hdone, hreset⟩ := ih
    obtain ⟨hnum, -⟩ := run_invariant hrun
    obtain ⟨g, idx, token, hnext⟩ := run_next asI32 hnum.kind (by rw [hnum.shape.addrs_eq]; simp)
    refine ⟨_, _, hrun.trans hnext, ?_, forall_mem_concat hdone rfl, ?_⟩
    · rw [List.count_append, hcount]
      simp
    · simpa using hreset

theorem run_stats (asToken : ℕ → ℤ) (hshape : Shape ["a"] s) : ∃ t u snap, step asToken s (.ev (.stats false)) = some t ∧
    Run (step asToken) Any t [.ev (.run s.tasks.length (.load false)), .ev (.run s.tasks.length (.load false))] u ∧
      u.tasks[s.tasks.length]? = some (.statsDone false snap) ∧ snap.length = 1 := by
  have hcome : step asToken s (.ev (.stats false)) = some ⟨s.shared, s.tasks ++ [.statsLoad false []]⟩ := by
    simp [step, step64, Selectors.step, stats, hshape.addrs_eq]
  obtain ⟨total, htotal⟩ : ∃ total, s.shared.counters.total[0]? = some total :=
    ⟨_, List.getElem?_eq_getElem (by rw [hshape.total]; exact Nat.one_pos)⟩
  obtain ⟨inflight, hinflight⟩ : ∃ inflight, s.shared.wrap.counters.inflight[0]? = some inflight :=
    ⟨_, List.getElem?_eq_getElem (by rw [hshape.wrap.inflight]; exact Nat.one_pos)⟩
  have haddrs : s.shared.wrap.counters.addrs = ["a"] := hshape.addrs_eq
  have hload : act64 asToken s.shared (.statsLoad false []) (.load false) =
      some (s.shared.wrap, .statsInflight false total []) := by
    simp [act64, act, htotal]
  have hdone : act64 asToken s.shared.wrap (.statsInflight false total []) (.load false) =
      some (s.shared.wrap.wrap, .statsDone false [⟨"a", total, inflight⟩]) := by
    simp [act64, act, haddrs, hinflight, stats]
  have hrun := (Run.one (P := Any) trivial (step_last s.tasks hload)).snoc trivial (step_last s.tasks hdone)
  exact ⟨_, _, [⟨"a", total, inflight⟩], hcome, hrun, List.getElem?_concat_length, rfl⟩

/-- **The counter-example.**  After `2 ^ 63` calls over one upstream its total is negative. -/
theorem total_wraps : ¬ ∀ (addrs : List String) (es fs : List Call) (s t u : Sys) (snap : List UpstreamStat),
    addrs ≠ [] → es.count (.ev .next) ≤ 2 ^ 64 → Run (step asI32) Any (Sys.new .countingRoundRobin addrs) es s →
    (∀ pc ∈ s.tasks, pc.busy = 0) → .ev (.stats true) ∉ es → step asI32 s (.ev (.stats false)) = some t →
    Run (step asI32) Any t fs u → .ev .next ∉ fs → .ev (.stats true) ∉ fs →
    u.tasks[s.tasks.length]? = some (.statsDone false snap) →
      ∀ i stat, snap[i]? = some stat → stat.total = (share addrs.length (es.count (.ev .next)) i : ℤ) := by
  intro hclaim
  obtain ⟨es, s, hrun, hcount, hdone, hreset⟩ := exists_calls (2 ^ 63)
  obtain ⟨hnum, -⟩ := run_invariant hrun
  obtain ⟨t, u, snap, hstats, hfs, hsnap, hlen⟩ := run_stats asI32 hnum.shape
  have hle : es.count (.ev .next) ≤ 2 ^ 64 := by omega
  obtain ⟨pc, hpc, hreports⟩ := (reported hrun hle hdone hreset hstats hfs (by simp) (by simp)).reports
  obtain rfl := Option.some.inj (hsnap.symm.trans hpc)
  obtain ⟨stat, hstat⟩ : ∃ stat, snap[0]? = some stat := ⟨_, List.getElem?_eq_getElem (by omega)⟩
  have hclaimed := hclaim _ _ _ _ _ _ _ (by simp) hle hrun hdone hreset hstats hfs (by simp) (by simp) hsnap 0 stat hstat
  have hdoes : stat.total = asI64 (share ["a"].length (es.count (.ev .next)) 0 : ℕ) := (hreports.1 0 stat hstat).2
  have hshare : share ["a"].length (es.count (.ev .next)) 0 = 2 ^ 63 := by
    rw [hcount, share]
    rfl
  rw [hshare] at hclaimed hdoes
  rw [hclaimed] at hdoes
  exact absurd hdoes (by decide)

end ServiceProxy.Upstream.Selectors.CountingRoundRobin
