import ServiceProxy.Upstream.Wrapping

/-!
# How far the loads of `LeastConn` can drift apart

A call of `LeastConn::next` scans the loads one by one and picks later on what it has read, while other calls pick in
between.  With at most `m` calls in progress and no release, no two loads ever differ by more than `m`, until one of them would
be more than `i64::MAX` and wraps.

* `Pc.Seen` — a call has read no load that has since become smaller than its `best_load`: loads only grow;
* `Pc.stale i l` — the call is about to pick `i`, having read a load below `l`;
* `Herded.level` — **the history of a level**: when the load of `i` reached `l`, at most `m - 1` other calls were in
  progress; a call that reads `i` later reads at least `l`, and picks it only when every load is at least `l`.  So what `i`
  has gained above `l`, together with the stale calls that may still add to it, is at most `m - 1`, until all loads have
  reached `l`.
-/

namespace ServiceProxy.Upstream.Selectors

open ServiceProxy.Lib

/-- At most `m` calls of `next` are in progress, and no token is given back. -/
def Herd (m : ℕ) (s : Sys) : Ev → Prop
  | .next => tally Pc.busy s.tasks < m
  | .run _ a => a ≠ .release
  | .stats _ => True

instance (m : ℕ) (s : Sys) (e : Ev) : Decidable (Herd m s e) := by
  unfold Herd
  split <;> infer_instance

/-- What a call of `LeastConn::next` has read so far bounds the loads. -/
def Pc.Seen (n : ℕ) (xs : List ℤ) : Pc → Prop
  | .leastScan i _ bestLoad _ => ∀ j < i, bestLoad ≤ load xs j
  | .pickTotal _ seen | .pickInflight _ seen => ∀ j < n, seen ≤ load xs j
  | .roundRobin | .p2cDraw | .p2cOther .. | .p2cOwn .. => False
  | _ => True

/-- The call stands by `i`, where it has read a load below `l`. -/
def Pc.stale (i : ℕ) (l : ℤ) : Pc → ℕ
  | .leastScan _ best bestLoad _ => if best = i ∧ bestLoad < l then 1 else 0
  | .pickTotal idx seen | .pickInflight idx seen => if idx = i ∧ seen < l then 1 else 0
  | _ => 0

/-- **The invariant of the herd.** -/
structure Herded (m n : ℕ) (s : Sys) : Prop where
  kind : s.shared.kind = .leastConn
  busy : tally Pc.busy s.tasks ≤ m
  seen : ∀ pc ∈ s.tasks, pc.Seen n s.shared.counters.inflight
  level : ∀ i < n, ∀ l, l ≤ load s.shared.counters.inflight i →
    (∀ j < n, l ≤ load s.shared.counters.inflight j) ∨
      load s.shared.counters.inflight i - l + tally (Pc.stale i l) s.tasks ≤ m - 1

variable {asToken : ℕ → ℤ} {addrs : List String} {s t : Sys} {e : Ev} {a : Act} {pc pc' : Pc} {sel : Selector}
  {m n k i best ties idx : ℕ} {bestLoad seen v l : ℤ} {xs ys : List ℤ}

/-! ## The scan -/

theorem stale_scan (j : ℕ) : (scan n i best bestLoad ties).stale j l = if best = j ∧ bestLoad < l then 1 else 0 := by
  unfold scan
  by_cases hi : i < n
  · rw [if_pos hi]
    rfl
  · rw [if_neg hi]
    rfl

/-- A call that reads the load of `best` just now is not stale. -/
theorem stale_scan_fresh (h : load xs best = bestLoad) (j : ℕ) (hl : l ≤ load xs j) :
    (scan n i best bestLoad ties).stale j l = 0 := by
  rw [stale_scan, if_neg]
  rintro ⟨rfl, hlt⟩
  omega

theorem seen_scan (h : ∀ j < i, bestLoad ≤ load xs j) : (scan n i best bestLoad ties).Seen n xs := by
  unfold scan
  split_ifs with hi
  · exact h
  · exact fun j hj => h j (by omega)

theorem stale_stats (reset : Bool) (snap : List UpstreamStat) : (stats n reset snap).stale i l = 0 := by
  unfold stats
  split_ifs <;> rfl

theorem seen_stats (reset : Bool) (snap : List UpstreamStat) : (stats k reset snap).Seen n xs := by
  unfold stats
  split_ifs <;> trivial

theorem Pc.Seen.mono (h : pc.Seen n xs) (hle : ∀ j, load xs j ≤ load ys j) : pc.Seen n ys := by
  cases pc with
  | leastScan => exact fun j hj => Int.le_trans (h j hj) (hle j)
  | pickTotal | pickInflight => exact fun j hj => Int.le_trans (h j hj) (hle j)
  | roundRobin | p2cDraw | p2cOther | p2cOwn => exact h
  | _ => trivial

theorem seen_succ (h : ∀ j < i, bestLoad ≤ load xs j) (hload : xs[i]? = some v) (hle : bestLoad ≤ v) :
    ∀ j < i + 1, bestLoad ≤ load xs j := by
  intro j hj
  by_cases hji : j = i
  · subst hji
    rw [load_of_getElem? hload]
    exact hle
  · exact h j (by omega)

theorem Pc.stale_le_busy (pc : Pc) : pc.stale i l ≤ pc.busy := by
  cases pc with
  | leastScan | pickTotal | pickInflight =>
    simp only [Pc.stale, Pc.busy]
    split_ifs <;> omega
  | _ => exact Nat.zero_le _

/-! ## One step -/

/-- A call moves on that changes no load and has read no load below those it may count for. -/
theorem Herded.quiet (h : Herded m n s) (hk : s.tasks[k]? = some pc) (hkind : sel.kind = s.shared.kind)
    (hinflight : sel.counters.inflight = s.shared.counters.inflight) (hbusy : pc'.busy = pc.busy)
    (hseen : pc'.Seen n s.shared.counters.inflight)
    (hstale : ∀ i l, l ≤ load s.shared.counters.inflight i → pc'.stale i l ≤ pc.stale i l) :
    Herded m n ⟨sel, s.tasks.set k pc'⟩ := by
  refine ⟨hkind.trans h.kind, ?_, ?_, fun i hi l hle => ?_⟩
  · have hset := tally_set Pc.busy hk pc'
    have hlive := h.busy
    simp only
    omega
  · simp only [hinflight]
    exact forall_mem_set h.seen hseen k
  · simp only [hinflight] at hle ⊢
    have hset := tally_set (Pc.stale i l) hk pc'
    have hless := hstale i l hle
    rcases h.level i hi l hle with hall | hgain
    · exact .inl hall
    · right
      omega

theorem Herded.pick (h : Herded m n s) (hk : s.tasks[k]? = some (.pickInflight idx seen))
    (hlen : s.shared.counters.inflight.length = n) (hidx : idx < n) (hkind : sel.kind = s.shared.kind)
    (hinflight : sel.counters.inflight = fetchAddAt s.shared.counters.inflight idx 1) (token : ℤ) :
    Herded m n ⟨sel, s.tasks.set k (.held idx token)⟩ := by
  have hload : ∀ j, load sel.counters.inflight j = load s.shared.counters.inflight j + if idx = j then 1 else 0 := by
    intro j
    rw [hinflight]
    exact getD_fetchAddAt (hlen ▸ hidx) 1 j
  have hmono : ∀ j, load s.shared.counters.inflight j ≤ load sel.counters.inflight j := by
    intro j
    rw [hload]
    split_ifs <;> omega
  have hsees : ∀ j < n, seen ≤ load s.shared.counters.inflight j := h.seen _ (List.mem_of_getElem? hk)
  have hbusy := tally_set Pc.busy hk (.held idx token)
  have hlive := h.busy
  simp only [Pc.busy] at hbusy
  refine ⟨hkind.trans h.kind, by simp only; omega, fun q hq => ?_, fun i hi l hle => ?_⟩
  · rcases List.mem_or_eq_of_mem_set hq with hq | rfl
    · exact (h.seen q hq).mono hmono
    · trivial
  · have hset := tally_set (Pc.stale i l) hk (.held idx token)
    simp only [Pc.stale] at hset
    simp only [hload] at hle ⊢
    by_cases hnew : load s.shared.counters.inflight i < l
    · -- the level is new: the other calls in progress are at most `m - 1`
      right
      have hstale : tally (Pc.stale i l) (s.tasks.set k (.held idx token)) ≤
          tally Pc.busy (s.tasks.set k (.held idx token)) := tally_mono fun pc _ => pc.stale_le_busy
      split_ifs at hle ⊢ <;> omega
    · rcases h.level i hi l (by omega) with hall | hgain
      · left
        intro j hj
        have hj := hall j hj
        split_ifs <;> omega
      · by_cases hsl : l ≤ seen
        · -- the choice rests on loads that had all reached the level
          left
          intro j hj
          have hj := hsees j hj
          split_ifs <;> omega
        · right
          split_ifs at hset ⊢ <;> omega

theorem herded_act (h : Herded m addrs.length s) (hshape : Shape addrs s) (hk : s.tasks[k]? = some pc)
    (ha : Acted asToken s.shared pc a sel pc') (hrel : a ≠ .release) :
    Herded m addrs.length ⟨sel, s.tasks.set k pc'⟩ := by
  have hmem := List.mem_of_getElem? hk
  have hseen := h.seen pc hmem
  have hpc := hshape.inRange pc hmem
  have hlen := hshape.inflight
  have hstay : ∀ pc : Pc, ∀ i l, l ≤ load s.shared.counters.inflight i → pc.stale i l ≤ pc.stale i l :=
    fun _ _ _ _ => Nat.le_refl _
  rw [← hshape.addrs_eq] at h hseen hpc hlen ⊢
  cases ha with
  | leastFirst hload =>
    have hzero := load_of_getElem? hload
    refine h.quiet hk rfl rfl busy_scan (seen_scan fun j hj => ?_) fun i l hl => ?_
    · obtain rfl : j = 0 := by omega
      exact Int.le_of_eq hzero.symm
    · rw [stale_scan_fresh hzero i hl]
      exact Nat.zero_le _
  | less hload hlt =>
    refine h.quiet hk rfl rfl busy_scan (seen_scan (seen_succ (fun j hj => ?_) hload (Int.le_refl _))) fun i l hl => ?_
    · exact Int.le_trans (Int.le_of_lt hlt) (hseen j hj)
    · rw [stale_scan_fresh (load_of_getElem? hload) i hl]
      exact Nat.zero_le _
  | @tie j best ties bestLoad take hload =>
    refine h.quiet hk rfl rfl busy_scan (seen_scan (seen_succ hseen hload (Int.le_refl _))) fun i l hl => ?_
    cases take with
    | true =>
      rw [if_pos rfl, stale_scan_fresh (load_of_getElem? hload) i hl]
      exact Nat.zero_le _
    | false =>
      rw [stale_scan]
      exact Nat.le_refl _
  | more hload hlt =>
    refine h.quiet hk rfl rfl busy_scan (seen_scan (seen_succ hseen hload (Int.le_of_lt hlt))) fun i l _ => ?_
    rw [stale_scan]
    exact Nat.le_refl _
  | pickTotal => exact h.quiet hk rfl rfl rfl hseen (hstay _)
  | pickInflight => apply h.pick hk hlen hpc <;> rfl
  | release => exact absurd rfl hrel
  | @statsLoad reset => cases reset <;> exact h.quiet hk rfl rfl rfl trivial (hstay _)
  | statsSub => exact h.quiet hk rfl rfl rfl trivial (hstay _)
  | statsInflight =>
    refine h.quiet hk rfl rfl (busy_stats ..) (seen_stats ..) fun _ _ _ => ?_
    rw [stale_stats]
    exact Nat.zero_le _
  | roundRobin | p2cDraw | p2cOther | p2cOwn => exact hseen.elim

theorem Herded.come (h : Herded m n s) (hbusy : tally Pc.busy s.tasks + pc.busy ≤ m)
    (hseen : pc.Seen n s.shared.counters.inflight) (hstale : ∀ i l, pc.stale i l = 0) :
    Herded m n ⟨s.shared, s.tasks ++ [pc]⟩ := by
  refine ⟨h.kind, by simpa using hbusy, forall_mem_concat h.seen hseen, fun i hi l hle => ?_⟩
  · simpa [hstale] using h.level i hi l hle

theorem Herded.wrap {tasks : List Pc} (h : Herded m n ⟨sel, tasks⟩) (hfit : ∀ i, IsI64 (load sel.counters.inflight i)) :
    Herded m n ⟨sel.wrap, tasks⟩ := by
  have hsame : sel.wrap.counters.inflight = sel.counters.inflight := map_asI64_of_load hfit
  refine ⟨h.kind, h.busy, ?_, ?_⟩
  · simp only [hsame]
    exact h.seen
  · simp only [hsame]
    exact h.level

/-- **Every step keeps the invariant of the herd**, as long as no pick finds its load at `i64::MAX`. -/
theorem herded_step (h : Herded m addrs.length s) (hshape : Shape addrs s) (hfit : s.shared.Fit) (hherd : Herd m s e)
    (hroom : Room Pc.inflightRoom s e) (hs : step64 asToken s e = some t) : Herded m addrs.length t := by
  cases stepped64_of_step64 hs with
  | next =>
    rw [h.kind]
    exact h.come hherd trivial fun _ _ => rfl
  | stats =>
    refine h.come ?_ (seen_stats ..) fun _ _ => stale_stats ..
    rw [busy_stats]
    exact h.busy
  | run hk ha =>
    refine (herded_act h hshape hk ha hherd).wrap (ha.fit_inflight hfit.inflight (hroom _ hk) fun hrelease => ?_)
    exact absurd hrelease hherd

/-! ## Whole runs -/

theorem herded_new (m : ℕ) (addrs : List String) : Herded m addrs.length (Sys.new .leastConn addrs) := by
  refine ⟨rfl, Nat.zero_le m, nofun, fun i _ l hle => .inl fun j _ => ?_⟩
  have hj : load (Sys.new .leastConn addrs).shared.counters.inflight j = 0 := load_new j
  have hi : load (Sys.new .leastConn addrs).shared.counters.inflight i = 0 := load_new i
  omega

/-- **The herd bound.**  From fresh counters over any addresses, in every interleaving of calls of `LeastConn::next` with
at most `m` of them in progress, no release and no pick that finds its load at `i64::MAX`, whatever the ties are broken to, no
two loads differ by more than `m`. -/
theorem leastConn_spread {es : List Ev}
    (h : Run (step64 asToken) (fun s e => Herd m s e ∧ Room Pc.inflightRoom s e) (Sys.new .leastConn addrs) es s) :
    ∀ x ∈ s.shared.counters.inflight, ∀ y ∈ s.shared.counters.inflight, x - y ≤ m := by
  have hinv : Shape addrs s ∧ s.shared.Fit ∧ Herded m addrs.length s := by
    refine h.invariant (I := fun s => Shape addrs s ∧ s.shared.Fit ∧ Herded m addrs.length s)
      ⟨shape_new .leastConn addrs, fit_new .leastConn addrs, herded_new m addrs⟩ ?_
    rintro u e v ⟨hshape, hfit, hu⟩ ⟨hherd, hroom⟩ hs
    exact ⟨shape_step64 hshape hs, fit_step64 hfit hs, herded_step hu hshape hfit hherd hroom hs⟩
  obtain ⟨hshape, -, hinv⟩ := hinv
  intro x hx y hy
  obtain ⟨i, hi⟩ := List.mem_iff_getElem?.1 hx
  obtain ⟨j, hj⟩ := List.mem_iff_getElem?.1 hy
  obtain ⟨hin, -⟩ := List.getElem?_eq_some_iff.1 hi
  obtain ⟨hjn, -⟩ := List.getElem?_eq_some_iff.1 hj
  rw [hshape.inflight] at hin hjn
  by_contra hfar
  -- the first level above `y`: the load of `j` has not reached it
  have hlevel := hinv.level i hin (y + 1)
  rw [load_of_getElem? hi] at hlevel
  rcases hlevel (by omega) with hall | hgain
  · have hj' := hall j hjn
    rw [load_of_getElem? hj] at hj'
    omega
  · omega

/-- Three calls scan before any of them picks: all of them pick the first upstream. -/
def herdEvents : List Ev :=
  [.next, .next, .next, .run 0 (.load false), .run 0 (.load false), .run 1 (.load false), .run 1 (.load false),
    .run 2 (.load false), .run 2 (.load false), .run 0 .fetchAdd, .run 1 .fetchAdd, .run 2 .fetchAdd, .run 0 .fetchAdd,
    .run 1 .fetchAdd, .run 2 .fetchAdd]

/-- The bound is reached. -/
theorem leastConn_spread_three :
    ∃ s, Run (step64 asI32) (fun s e => Herd 3 s e ∧ Room Pc.inflightRoom s e) (Sys.new .leastConn ["a", "b"]) herdEvents s ∧
      s.shared.counters.inflight = [3, 0] ∧
      ∀ x ∈ s.shared.counters.inflight, ∀ y ∈ s.shared.counters.inflight, x - y ≤ (3 : ℕ) := by
  have hrun : Run (step64 asI32) (fun s e => Herd 3 s e ∧ Room Pc.inflightRoom s e) (Sys.new .leastConn ["a", "b"])
    herdEvents _ := Run.of_exec_get (by decide)
  exact ⟨_, hrun, by decide, leastConn_spread hrun⟩

/-! ## Loads are `i64`s -/

/-- No call is in progress, and the loads of the two upstreams are `x` and `y`. -/
structure Resting (x y : ℤ) (s : Sys) : Prop where
  valid : s.shared.Valid
  kind : s.shared.kind = .leastConn
  addrs : s.shared.counters.addrs = ["a", "b"]
  inflight : s.shared.counters.inflight = [x, y]
  idle : tally Pc.busy s.tasks = 0

section Resting

variable {x y : ℤ}

theorem Resting.pick (h : Resting x y s) {es : List Ev}
    (hrun : Run (step64 asI32) (Herd 1) s es ⟨s.shared, s.tasks ++ [.pickTotal idx v]⟩) :
    ∃ fs, Run (step64 asI32) (Herd 1) s fs ⟨s.shared.picked idx, s.tasks ++ [.held idx (asI32 idx)]⟩ := by
  obtain ⟨mid, htotal, hinflight⟩ := pick_alone asI32 h.valid idx v
  have hadd : ∀ u, Herd 1 u (.run s.tasks.length .fetchAdd) := fun _ => by simp [Herd]
  exact ⟨_, (hrun.snoc (hadd _) (step64_last s.tasks htotal)).snoc (hadd _) (step64_last s.tasks hinflight)⟩

theorem Resting.scan (h : Resting x y s) :
    ∃ es, Run (step64 asI32) (Herd 1) s es ⟨s.shared, s.tasks ++ [if y < x then .pickTotal 1 y else .pickTotal 0 x]⟩ := by
  have hload : ∀ u, Herd 1 u (.run s.tasks.length (.load false)) := fun _ => by simp [Herd]
  have hcome : step64 asI32 s .next = some ⟨s.shared, s.tasks ++ [.leastFirst]⟩ := by
    simp [step64, Selectors.step, h.kind, Kind.next]
  have hfirst : act asI32 s.shared .leastFirst (.load false) = some (s.shared, .leastScan 1 0 x 1) := by
    simp [act, h.inflight, h.addrs, Selectors.scan]
  have hnext : act asI32 s.shared (.leastScan 1 0 x 1) (.load false) =
      some (s.shared, if y < x then .pickTotal 1 y else .pickTotal 0 x) := by
    simp only [act, h.inflight, h.addrs, Selectors.scan, List.getElem?_cons_succ, List.getElem?_cons_zero]
    split_ifs <;> first | rfl | simp_all
  have hherd : Herd 1 s .next := by
    unfold Herd
    rw [h.idle]
    exact Nat.one_pos
  exact ⟨_, ((Run.one hherd hcome).snoc (hload _) (step64_last s.tasks (act64_of_act h.valid hfirst))).snoc (hload _)
    (step64_last s.tasks (act64_of_act h.valid hnext))⟩

theorem Resting.even (h : Resting x x s) : ∃ es t, Run (step64 asI32) (Herd 1) s es t ∧ Resting (asI64 (x + 1)) x t := by
  obtain ⟨es, hscan⟩ := h.scan
  rw [if_neg (Int.lt_irrefl x)] at hscan
  obtain ⟨fs, hrun⟩ := h.pick hscan
  refine ⟨fs, _, hrun, h.valid.picked 0, h.kind, h.addrs, ?_, by simp [h.idle, Pc.busy]⟩
  simp [Selector.picked, Counters.pick, h.inflight]

theorem Resting.odd (h : Resting x y s) (hlt : y < x) :
    ∃ es t, Run (step64 asI32) (Herd 1) s es t ∧ Resting x (asI64 (y + 1)) t := by
  obtain ⟨es, hscan⟩ := h.scan
  rw [if_pos hlt] at hscan
  obtain ⟨fs, hrun⟩ := h.pick hscan
  refine ⟨fs, _, hrun, h.valid.picked 1, h.kind, h.addrs, ?_, by simp [h.idle, Pc.busy]⟩
  simp [Selector.picked, Counters.pick, h.inflight]

theorem exists_even (k : ℕ) (hk : k < 2 ^ 63) :
    ∃ es s, Run (step64 asI32) (Herd 1) (Sys.new .leastConn ["a", "b"]) es s ∧ Resting k k s := by
  induction k with
  | zero => exact ⟨[], _, .nil, valid_new .leastConn ["a", "b"], rfl, rfl, rfl, rfl⟩
  | succ k ih =>
    obtain ⟨es, s, hrun, hrest⟩ := ih (by omega)
    have hfit : asI64 (k + 1) = (k + 1 : ℕ) := asI64_eq ⟨by omega, by omega⟩
    obtain ⟨fs, t, ht, hodd⟩ := hrest.even
    rw [hfit] at hodd
    obtain ⟨gs, u, hu, heven⟩ := hodd.odd (by omega)
    rw [hfit] at heven
    exact ⟨_, u, (hrun.trans ht).trans hu, heven⟩

end Resting

/-- **The counter-example.**  Calls one after the other over two upstreams: the pick after `2 ^ 64 - 2` of them makes one load
negative. -/
theorem leastConn_wraps : ¬ ∀ (m : ℕ) (addrs : List String) (es : List Ev) (s : Sys), 1 ≤ m → addrs ≠ [] →
    Run (step64 asI32) (Herd m) (Sys.new .leastConn addrs) es s →
      ∀ x ∈ s.shared.counters.inflight, ∀ y ∈ s.shared.counters.inflight, x - y ≤ m := by
  intro hclaim
  obtain ⟨es, s, hrun, hrest⟩ := exists_even (2 ^ 63 - 1) (by omega)
  obtain ⟨fs, t, ht, hwrapped⟩ := hrest.even
  have hspread := hclaim 1 _ _ t (Nat.le_refl 1) (by simp) (hrun.trans ht) ((2 ^ 63 - 1 : ℕ) : ℤ) ?_
    (asI64 ((2 ^ 63 - 1 : ℕ) + 1)) ?_
  · revert hspread
    decide
  · rw [hwrapped.inflight]
    simp
  · rw [hwrapped.inflight]
    simp

end ServiceProxy.Upstream.Selectors
