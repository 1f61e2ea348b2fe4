import ServiceProxy.Upstream.Wrapping

/-!
# What the counters of a selector say

A pick is two atomic steps and a reset is a load and a `fetch_sub`, so picks land between the two halves of a reset, and
resets overlap.  The log of a run says what was executed:

* `Acted.drift` — no operation changes what `total[i]` misses of its increments less what resets subtracted from it, and
  `missing_act` — nor what `inflight[i]` misses of the tokens of `i` that callers hold.  For `inflight` a token must be the
  index it stands for (`Exact`), which an `i32` is below `2 ^ 31`;
* so both agree modulo `2 ^ 64` in every run (`Ledger64`), and as integers (`Ledger`) in every run whose operations find room in
  their counters;
* `reported_step` — what the calls of `stats(true)` have loaded is what they subtracted and what they are about to subtract;
* `Apart` — no reset loads a total that another one has loaded and is about to subtract.  Without it one pick is reported
  twice.
-/

namespace ServiceProxy.Upstream.Selectors

open ServiceProxy.Lib

/-! ## The ledger -/

/-- What the operation subtracts from `total[i]`. -/
def Op.subtracts (i : ℕ) : Op → ℤ
  | .subTotal j total => if j = i then total else 0
  | _ => 0

/-- What all resets have subtracted from `total[i]`. -/
def subtracted (log : List Op) (i : ℕ) : ℤ := sumOf (Op.subtracts i) log

def Pc.holds (i : ℕ) : Pc → ℕ
  | .held idx _ => if idx = i then 1 else 0
  | _ => 0

def Pc.isStats : Pc → Bool
  | .statsLoad _ _ | .statsSub _ _ | .statsInflight _ _ _ | .statsDone _ _ => true
  | _ => false

/-- A token that is released is the index of its upstream. -/
def Exact (s : Sys) : Ev → Prop
  | .run k .release => ∀ idx token, s.tasks[k]? = some (.held idx token) → token = idx
  | _ => True

/-- **The ledger of the counters.** -/
structure Ledger (s : Sys) : Prop where
  total : ∀ i, s.shared.counters.total.getD i 0 + subtracted s.shared.log i = s.shared.log.count (.addTotal i)
  inflight : ∀ i, s.shared.counters.inflight.getD i 0 =
    (s.shared.log.count (.addInflight i) : ℤ) - s.shared.log.count (.release i)
  nonneg : ∀ i, 0 ≤ s.shared.counters.inflight.getD i 0

/-- **The ledger of the counters as `i64`s.** -/
structure Ledger64 (s : Sys) : Prop where
  total : ∀ i, asI64 (s.shared.counters.total.getD i 0 + subtracted s.shared.log i) =
    asI64 (s.shared.log.count (.addTotal i) : ℕ)
  inflight : ∀ i, s.shared.counters.inflight.getD i 0 =
    asI64 ((s.shared.log.count (.addInflight i) : ℤ) - s.shared.log.count (.release i))
  released : ∀ i, s.shared.log.count (.release i) ≤ s.shared.log.count (.addInflight i)

/-- What the ledger says of the upstream `i` are `i64`s: the picks less what resets have subtracted, and the picks less the
releases. -/
def CountsFit (s : Sys) (i : ℕ) : Prop :=
  IsI64 (s.shared.log.count (.addTotal i) - subtracted s.shared.log i) ∧
    IsI64 ((s.shared.log.count (.addInflight i) : ℤ) - s.shared.log.count (.release i))

/-- What `total[i]` and the log miss of each other. -/
def Selector.drift (i : ℕ) (sel : Selector) : ℤ :=
  load sel.counters.total i + subtracted sel.log i - sel.log.count (.addTotal i)

/-- What `inflight[i]` and the tokens of `i` that callers hold miss of each other. -/
def missing (i : ℕ) (s : Sys) : ℤ := load s.shared.counters.inflight i - (tally (Pc.holds i) s.tasks : ℕ)

variable {asToken : ℕ → ℤ} {addrs : List String} {s t : Sys} {e : Ev} {k i : ℕ} {a : Act} {pc pc' : Pc}
  {sel sel' : Selector}

/-! ## One step -/

@[simp] theorem subtracted_append (log : List Op) (op : Op) :
    subtracted (log ++ [op]) i = subtracted log i + op.subtracts i := by
  simp [subtracted]

theorem holds_scan (n j best : ℕ) (bestLoad : ℤ) (ties : ℕ) : (scan n j best bestLoad ties).holds i = 0 := by
  unfold scan
  split_ifs <;> rfl

theorem holds_stats (n : ℕ) (reset : Bool) (snap : List UpstreamStat) : (stats n reset snap).holds i = 0 := by
  unfold stats
  split_ifs <;> rfl

theorem holds_next (kind : Kind) : kind.next.holds i = 0 := by
  cases kind <;> rfl

theorem load_fetchAddAt {xs : List ℤ} {idx : ℕ} (hidx : idx < xs.length) (d : ℤ) (i : ℕ) :
    load (fetchAddAt xs idx d) i = load xs i + if idx = i then d else 0 := getD_fetchAddAt hidx d i

theorem Acted.drift (h : Acted asToken sel pc a sel' pc') (hlen : sel.counters.total.length = addrs.length)
    (hpc : pc.InRange addrs.length) : sel'.drift i = sel.drift i := by
  unfold Selector.drift
  cases h with
  | @pickTotal idx seen =>
    have hidx : idx < sel.counters.total.length := by
      rw [hlen]
      exact hpc
    simp only [load_fetchAddAt hidx, subtracted_append, Op.subtracts, List.count_append, List.count_singleton, beq_iff_eq,
      Op.addTotal.injEq]
    split_ifs <;> push_cast <;> omega
  | @statsSub total snap =>
    have hidx : snap.length < sel.counters.total.length := by
      rw [hlen]
      exact hpc
    simp only [load_fetchAddAt hidx, subtracted_append, Op.subtracts, List.count_append, List.count_singleton, beq_iff_eq,
      reduceCtorEq, if_false]
    split_ifs <;> push_cast <;> omega
  | pickInflight => simp [Op.subtracts, List.count_append]
  | release => simp [total_release, Op.subtracts, List.count_append]
  | _ => rfl

theorem drift_step64 (hshape : Shape addrs s) (hs : step64 asToken s e = some t) :
    asI64 (t.shared.drift i) = asI64 (s.shared.drift i) := by
  cases stepped64_of_step64 hs with
  | next => rfl
  | stats => rfl
  | @run k a pc pc' sel hk ha =>
    rw [← ha.drift hshape.total (hshape.inRange _ (List.mem_of_getElem? hk))]
    unfold Selector.drift
    rw [show sel.wrap.counters.total = sel.counters.total.map asI64 from rfl, load_wrap, Int.add_sub_assoc, asI64_asI64_add,
      ← Int.add_sub_assoc]
    rfl

theorem drift_step64_of_room (hshape : Shape addrs s) (hfit : s.shared.Fit) (hadd : Room Pc.totalRoom s e)
    (hsub : Room Pc.subRoom s e) (hs : step64 asToken s e = some t) : t.shared.drift i = s.shared.drift i := by
  cases stepped64_of_step64 hs with
  | next => rfl
  | stats => rfl
  | @run k a pc pc' sel hk ha =>
    rw [← ha.drift hshape.total (hshape.inRange _ (List.mem_of_getElem? hk))]
    have htotal := load_wrap_of_isI64 (ha.fit_total hfit.total (hadd pc hk) (hsub pc hk) i)
    unfold Selector.drift
    rw [← htotal]
    rfl

/-- The tokens of `i` that callers hold are those made and not given back. -/
def Logged (i : ℕ) (s : Sys) : Prop :=
  s.shared.log.count (.addInflight i) = s.shared.log.count (.release i) + tally (Pc.holds i) s.tasks

/-- What an operation of a call at `pc` does to the load of `i`, its log, and the tokens that callers hold. -/
structure Balanced (i : ℕ) (sel sel' : Selector) (pc pc' : Pc) : Prop where
  inflight : load sel'.counters.inflight i - pc'.holds i = load sel.counters.inflight i - pc.holds i
  log : sel'.log.count (.addInflight i) + sel.log.count (.release i) + pc.holds i =
    sel.log.count (.addInflight i) + sel'.log.count (.release i) + pc'.holds i

/-- **An operation keeps the balance**, if the tokens are exact. -/
theorem Acted.balanced (h : Acted asToken sel pc a sel' pc') (hlen : sel.counters.inflight.length = addrs.length)
    (hpc : pc.InRange addrs.length) (hexact : a = .release → ∀ idx token, pc = .held idx token → token = idx) :
    Balanced i sel sel' pc pc' := by
  cases h with
  | @pickInflight idx seen =>
    have hidx : idx < sel.counters.inflight.length := by
      rw [hlen]
      exact hpc
    refine ⟨?_, ?_⟩
    · simp only [load_fetchAddAt hidx, Pc.holds]
      split_ifs <;> simp
    · simp only [Pc.holds, List.count_append, List.count_singleton, beq_iff_eq, Op.addInflight.injEq, reduceCtorEq, if_false]
      split_ifs <;> omega
  | @release idx token =>
    have hidx : idx < sel.counters.inflight.length := by
      rw [hlen]
      exact hpc
    obtain rfl : token = idx := hexact rfl idx token rfl
    refine ⟨?_, ?_⟩
    · simp only [Counters.release, Int.natCast_nonneg, if_true, Int.toNat_natCast, load_fetchAddAt hidx, Pc.holds]
      split_ifs <;> omega
    · simp only [Pc.holds, List.count_append, List.count_singleton, beq_iff_eq, Op.release.injEq, reduceCtorEq, if_false]
      split_ifs <;> omega
  | pickTotal | statsSub => exact ⟨rfl, by simp [List.count_append, Pc.holds]⟩
  | leastFirst | less | tie | more => exact ⟨by rw [holds_scan]; rfl, by rw [holds_scan]; rfl⟩
  | statsInflight => exact ⟨by rw [holds_stats]; rfl, by rw [holds_stats]; rfl⟩
  | p2cOwn | statsLoad => exact ⟨by split_ifs <;> rfl, by split_ifs <;> rfl⟩
  | _ => exact ⟨rfl, rfl⟩

theorem exact_release {k : ℕ} (h : Exact s (.run k a)) (hk : s.tasks[k]? = some pc) :
    a = .release → ∀ idx token, pc = .held idx token → token = idx := by
  rintro rfl idx token rfl
  exact h idx token hk

theorem missing_act (hk : s.tasks[k]? = some pc) (h : Balanced i s.shared sel pc pc') :
    missing i ⟨sel, s.tasks.set k pc'⟩ = missing i s := by
  have hset := tally_set (Pc.holds i) hk pc'
  have hinflight := h.inflight
  unfold missing
  simp only
  omega

theorem missing_come (hpc : pc.holds i = 0) : missing i ⟨s.shared, s.tasks ++ [pc]⟩ = missing i s := by
  simp [missing, hpc]

theorem logged_step (h : Logged i s) (hshape : Shape addrs s) (hexact : Exact s e) (hs : step64 asToken s e = some t) :
    Logged i t := by
  unfold Logged at h ⊢
  cases stepped64_of_step64 hs with
  | next => simpa [holds_next] using h
  | stats => simpa [holds_stats] using h
  | @run k a pc pc' sel hk ha =>
    have hset := tally_set (Pc.holds i) hk pc'
    have hlog := (ha.balanced (i := i) hshape.inflight (hshape.inRange _ (List.mem_of_getElem? hk))
      (exact_release hexact hk)).log
    simp only [Selector.wrap]
    omega

theorem missing_step64 (hshape : Shape addrs s) (hexact : Exact s e) (hs : step64 asToken s e = some t) :
    asI64 (missing i t) = asI64 (missing i s) := by
  cases stepped64_of_step64 hs with
  | next => rw [missing_come (holds_next _)]
  | stats => rw [missing_come (holds_stats ..)]
  | @run k a pc pc' sel hk ha =>
    rw [← missing_act hk (ha.balanced hshape.inflight (hshape.inRange _ (List.mem_of_getElem? hk))
      (exact_release hexact hk))]
    unfold missing
    simp only [show sel.wrap.counters.inflight = sel.counters.inflight.map asI64 from rfl, load_wrap, Int.sub_eq_add_neg,
      asI64_asI64_add]

theorem missing_step64_of_room (h : ∀ i, missing i s = 0) (hshape : Shape addrs s) (hfit : s.shared.Fit)
    (hexact : Exact s e) (hroom : Room Pc.inflightRoom s e) (hs : step64 asToken s e = some t) : missing i t = 0 := by
  cases stepped64_of_step64 hs with
  | next => rw [missing_come (holds_next _), h]
  | stats => rw [missing_come (holds_stats ..), h]
  | @run k a pc pc' sel hk ha =>
    have hact : ∀ i, missing i ⟨sel, s.tasks.set k pc'⟩ = 0 := by
      intro i
      rw [missing_act hk (ha.balanced hshape.inflight (hshape.inRange _ (List.mem_of_getElem? hk))
        (exact_release hexact hk)), h]
    have hwrap := load_wrap_of_isI64 (ha.fit_inflight hfit.inflight (hroom pc hk) (fun hrelease i => ?_) i)
    · rw [← hact i]
      unfold missing
      simp only
      rw [← hwrap]
      rfl
    · -- a release leaves as much as there are tokens, which are fewer than before
      have hold := h i
      have hnew := hact i
      have hset := tally_set (Pc.holds i) hk pc'
      have hi := hfit.inflight i
      unfold missing at hold hnew
      unfold IsI64 at hi ⊢
      simp only at hnew
      subst hrelease
      cases ha with
      | release =>
        simp only [Pc.holds] at hset
        omega

theorem Acted.inflight_of_isStats (h : Acted asToken sel pc a sel' pc') (hpc : pc.isStats = true) :
    sel'.counters.inflight = sel.counters.inflight := by
  cases h <;> first | rfl | cases hpc

/-! ## Whole runs -/

theorem drift_new (kind : Kind) (addrs : List String) : (Sys.new kind addrs).shared.drift i = 0 := by
  unfold Selector.drift
  rw [show (Sys.new kind addrs).shared.counters.total = List.replicate addrs.length 0 from rfl, load_replicate]
  rfl

theorem missing_new (kind : Kind) (addrs : List String) : missing i (Sys.new kind addrs) = 0 := by
  unfold missing
  rw [show (Sys.new kind addrs).shared.counters.inflight = List.replicate addrs.length 0 from rfl, load_replicate]
  rfl

/-- The invariant of all runs with exact tokens. -/
structure Kept (addrs : List String) (s : Sys) : Prop where
  shape : Shape addrs s
  fit : s.shared.Fit
  logged : ∀ i, Logged i s
  drift : ∀ i, asI64 (s.shared.drift i) = 0
  missing : ∀ i, asI64 (missing i s) = 0

theorem kept_new (kind : Kind) (addrs : List String) : Kept addrs (Sys.new kind addrs) :=
  ⟨shape_new kind addrs, fit_new kind addrs, fun _ => rfl, fun _ => by rw [drift_new]; rfl, fun _ => by rw [missing_new]; rfl⟩

theorem kept_step (h : Kept addrs s) (hexact : Exact s e) (hs : step64 asToken s e = some t) : Kept addrs t := by
  refine ⟨shape_step64 h.shape hs, fit_step64 h.fit hs, fun i => logged_step (h.logged i) h.shape hexact hs, fun i => ?_,
    fun i => ?_⟩
  · rw [drift_step64 h.shape hs, h.drift]
  · rw [missing_step64 h.shape hexact hs, h.missing]

theorem kept_of_exact {kind : Kind} {es : List Ev} (h : Run (step64 asToken) Exact (Sys.new kind addrs) es s) :
    Kept addrs s := h.invariant (kept_new kind addrs) fun _ _ _ hu hexact hs => kept_step hu hexact hs

theorem Kept.inflight_eq (h : Kept addrs s) (i : ℕ) :
    s.shared.counters.inflight.getD i 0 = asI64 (tally (Pc.holds i) s.tasks : ℕ) := by
  have heq := asI64_eq_iff.2 (h.missing i)
  rw [asI64_eq (h.fit.inflight i)] at heq
  exact heq

/-- **The counters are the ledger, as `i64`s**, as long as the tokens are exact. -/
theorem Kept.ledger64 (h : Kept addrs s) : Ledger64 s := by
  refine ⟨fun i => asI64_eq_iff.2 (h.drift i), fun i => ?_, fun i => ?_⟩
  · have hlog := h.logged i
    unfold Logged at hlog
    rw [h.inflight_eq i]
    congr 1
    omega
  · have hlog := h.logged i
    unfold Logged at hlog
    omega

theorem Kept.ledger_iff (h : Kept addrs s) : Ledger s ↔ ∀ i, CountsFit s i := by
  obtain ⟨htotal, hinflight, hreleased⟩ := h.ledger64
  constructor
  · intro hl i
    refine ⟨?_, ?_⟩
    · rw [← hl.total i, Int.add_sub_cancel]
      exact h.fit.total i
    · rw [← hl.inflight i]
      exact h.fit.inflight i
  · intro hfit
    have hload : ∀ i, s.shared.counters.inflight.getD i 0 =
        (s.shared.log.count (.addInflight i) : ℤ) - s.shared.log.count (.release i) := by
      intro i
      rw [hinflight i, asI64_eq (hfit i).2]
    refine ⟨fun i => ?_, hload, fun i => ?_⟩
    · have heq : asI64 (load s.shared.counters.total i) =
          asI64 ((s.shared.log.count (.addTotal i) : ℕ) - subtracted s.shared.log i) := by
        refine asI64_eq_iff.2 ?_
        rw [← h.drift i]
        congr 1
        unfold Selector.drift
        omega
      rw [asI64_eq (h.fit.total i), asI64_eq (hfit i).1] at heq
      unfold load at heq
      omega
    · have hle := hreleased i
      rw [hload i]
      omega

/-- **The ledger holds as long as the tokens are exact and the operations find room.** -/
theorem ledger_of_room {kind : Kind} {es : List Ev} (h : Run (step64 asToken)
    (fun s e => Exact s e ∧ Room Pc.totalRoom s e ∧ Room Pc.subRoom s e ∧ Room Pc.inflightRoom s e) (Sys.new kind addrs) es s) :
    Ledger s := by
  have hinv : Kept addrs s ∧ (∀ i, s.shared.drift i = 0) ∧ ∀ i, missing i s = 0 := by
    refine h.invariant (I := fun s => Kept addrs s ∧ (∀ i, s.shared.drift i = 0) ∧ ∀ i, missing i s = 0)
      ⟨kept_new kind addrs, fun _ => drift_new kind addrs, fun _ => missing_new kind addrs⟩ ?_
    rintro u e v ⟨hu, hdrift, hmissing⟩ ⟨hexact, hadd, hsub, hroom⟩ hs
    refine ⟨kept_step hu hexact hs, fun i => ?_, fun i => missing_step64_of_room hmissing hu.shape hu.fit hexact hroom hs⟩
    rw [drift_step64_of_room hu.shape hu.fit hadd hsub hs, hdrift]
  obtain ⟨hkept, hdrift, hmissing⟩ := hinv
  refine hkept.ledger_iff.2 fun i => ⟨?_, ?_⟩
  · have hi := hdrift i
    have heq : (s.shared.log.count (.addTotal i) : ℤ) - subtracted s.shared.log i = load s.shared.counters.total i := by
      unfold Selector.drift at hi
      omega
    rw [heq]
    exact hkept.fit.total i
  · have hi := hmissing i
    have hlog := hkept.logged i
    have heq : (s.shared.log.count (.addInflight i) : ℤ) - s.shared.log.count (.release i) =
        load s.shared.counters.inflight i := by
      unfold missing at hi
      unfold Logged at hlog
      omega
    rw [heq]
    exact hkept.fit.inflight i

/-- A caller holds the token that `pick` made for its upstream. -/
def Minted (asToken : ℕ → ℤ) (s : Sys) : Prop := ∀ idx token, .held idx token ∈ s.tasks → token = asToken idx

theorem held_ne_scan {n j best ties idx : ℕ} {bestLoad token : ℤ} : Pc.held idx token ≠ scan n j best bestLoad ties := by
  unfold scan
  split_ifs <;> simp

theorem held_ne_stats {n idx : ℕ} {reset : Bool} {snap : List UpstreamStat} {token : ℤ} :
    Pc.held idx token ≠ stats n reset snap := by
  unfold stats
  split_ifs <;> simp

theorem minted_step (h : Minted asToken s) (hs : step64 asToken s e = some t) : Minted asToken t := by
  intro idx token hmem
  cases stepped64_of_step64 hs with
  | next =>
    rcases List.mem_append.1 hmem with hmem | hmem
    · exact h idx token hmem
    · have heq := List.mem_singleton.1 hmem
      cases hkind : s.shared.kind <;> simp [hkind, Kind.next] at heq
  | stats =>
    rcases List.mem_append.1 hmem with hmem | hmem
    · exact h idx token hmem
    · exact absurd (List.mem_singleton.1 hmem) held_ne_stats
  | run hk ha =>
    rcases List.mem_or_eq_of_mem_set hmem with hmem | heq
    · exact h idx token hmem
    · cases ha with
      | pickInflight =>
        obtain ⟨rfl, rfl⟩ := Pc.held.inj heq
        rfl
      | leastFirst | less | tie | more => exact absurd heq held_ne_scan
      | statsInflight => exact absurd heq held_ne_stats
      | p2cOwn | statsLoad => split_ifs at heq
      | _ => cases heq

/-- If it is a token, its upstream has a number below `2 ^ 31`. -/
def Pc.small : Pc → Bool
  | .held idx _ => idx < 2 ^ 31
  | _ => true

/-- No token of an upstream with the number `2 ^ 31` or more is released. -/
def TokenFits (s : Sys) : Ev → Prop
  | .run k .release => ∀ pc ∈ s.tasks[k]?, pc.small = true
  | _ => True

instance (s : Sys) (e : Ev) : Decidable (TokenFits s e) := by
  unfold TokenFits
  split <;> infer_instance

theorem exact_of_minted (h : Minted asI32 s) (hfits : TokenFits s e) : Exact s e := by
  unfold Exact
  split
  · rename_i k
    intro idx token hk
    have hsmall : (Pc.held idx token).small = true := hfits _ hk
    have hlt : idx < 2 ^ 31 := by simpa [Pc.small] using hsmall
    exact (h idx token (List.mem_of_getElem? hk)).trans (asI32_eq hlt)
  · trivial

/-- No operation of the step takes a counter out of the `i64`s. -/
def NoOverflow (s : Sys) (e : Ev) : Prop := Room Pc.totalRoom s e ∧ Room Pc.subRoom s e ∧ Room Pc.inflightRoom s e

instance (s : Sys) (e : Ev) : Decidable (NoOverflow s e) :=
  inferInstanceAs (Decidable (Room Pc.totalRoom s e ∧ Room Pc.subRoom s e ∧ Room Pc.inflightRoom s e))

/-- **The ledger of the Rust selectors.**  In every interleaving of calls of `next`, `release` and `stats`, over any
addresses and for any of the three selectors, in which no token of an upstream with the number `2 ^ 31` or more is released and
no operation takes a counter out of the `i64`s: no pick is lost to a reset, `inflight` counts the tokens that callers hold, and
no call of `stats` changes it. -/
theorem selector_ledger {kind : Kind} {es : List Ev}
    (h : Run (step64 asI32) (fun s e => TokenFits s e ∧ NoOverflow s e) (Sys.new kind addrs) es s) :
    Ledger s ∧ ∀ k a t pc, s.tasks[k]? = some pc → pc.isStats = true → step64 asI32 s (.run k a) = some t →
      t.shared.counters.inflight = s.shared.counters.inflight := by
  have hexact : Run (step64 asI32)
      (fun s e => Exact s e ∧ Room Pc.totalRoom s e ∧ Room Pc.subRoom s e ∧ Room Pc.inflightRoom s e)
      (Sys.new kind addrs) es s :=
    h.mono_of_invariant (I := Minted asI32) nofun (fun _ _ _ hu _ hs => minted_step hu hs)
      fun _ _ hu hP => ⟨exact_of_minted hu hP.1, hP.2⟩
  have hfit : s.shared.Fit := h.invariant (I := fun s => s.shared.Fit) (fit_new kind addrs) fun _ _ _ hu _ hs => fit_step64 hu hs
  refine ⟨ledger_of_room hexact, fun k a t pc hk hpc hs => ?_⟩
  cases stepped64_of_step64 hs with
  | @run k a pc' _ sel hk' ha =>
    obtain rfl := Option.some.inj (hk.symm.trans hk')
    have hsame := ha.inflight_of_isStats hpc
    rw [show sel.wrap.counters.inflight = sel.counters.inflight.map asI64 from rfl, hsame, map_asI64_of_load hfit.inflight]

theorem exact_of_int {kind : Kind} {es : List Ev} (h : Run (step64 Int.ofNat) Any (Sys.new kind addrs) es s) :
    Run (step64 Int.ofNat) Exact (Sys.new kind addrs) es s := by
  refine h.mono_of_invariant (I := Minted Int.ofNat) nofun (fun _ _ _ hu _ hs => minted_step hu hs) ?_
  intro u e hu _
  unfold Exact
  split
  · exact fun idx token hk => hu idx token (List.mem_of_getElem? hk)
  · trivial

/-- **The ledger of the Go selectors.**  In every run the counters are the ledger as `int64`s, and they are the ledger itself
exactly if the numbers in it are `int64`s. -/
theorem ledger_of_int {kind : Kind} {es : List Ev} (h : Run (step64 Int.ofNat) Any (Sys.new kind addrs) es s) :
    Ledger64 s ∧ (Ledger s ↔ ∀ i, CountsFit s i) :=
  ⟨(kept_of_exact (exact_of_int h)).ledger64, (kept_of_exact (exact_of_int h)).ledger_iff⟩

/-- A pick lands between the load and the `fetch_sub` of a reset, and the token of another one is given back. -/
def resetEvents : List Ev :=
  [.next, .run 0 (.load false), .run 0 (.load true), .run 0 .fetchAdd, .run 0 .fetchAdd, .stats true, .next,
    .run 2 (.load false), .run 2 (.load false), .run 1 (.load false), .run 2 .fetchAdd, .run 1 .fetchSub, .run 0 .release]

theorem selector_ledger_reset :
    ∃ s, Run (step64 asI32) (fun s e => TokenFits s e ∧ NoOverflow s e) (Sys.new .leastConn ["a", "b"]) resetEvents s ∧
      subtracted s.shared.log 1 = 0 ∧ Ledger s := by
  have hrun : Run (step64 asI32) (fun s e => TokenFits s e ∧ NoOverflow s e) (Sys.new .leastConn ["a", "b"]) resetEvents _ :=
    Run.of_exec_get (by decide)
  exact ⟨_, hrun, by decide, (selector_ledger hrun).1⟩

/-- The same calls in Go. -/
theorem ledger_of_int_reset :
    ∃ s, Run (step64 Int.ofNat) Any (Sys.new .leastConn ["a", "b"]) resetEvents s ∧ subtracted s.shared.log 1 = 0 ∧
      Ledger64 s := by
  have hrun : Run (step64 Int.ofNat) Any (Sys.new .leastConn ["a", "b"]) resetEvents _ := Run.of_exec_get (by decide)
  exact ⟨_, hrun, by decide, (ledger_of_int hrun).1⟩

section LongList

variable {idx : ℕ}

/-- `P2C` picks the upstream `idx` for its first request, which gives its token back. -/
def pickEvents (idx : ℕ) : List Ev :=
  [.next, .run 0 (.random idx 0), .run 0 (.load false), .run 0 (.load false), .run 0 .fetchAdd, .run 0 .fetchAdd,
    .run 0 .release]

theorem run_pickEvents (hidx : idx < addrs.length) (hpos : 0 < idx) :
    ∃ g, act64 asI32 ((Selector.new .p2c addrs).picked idx) (.held idx (asI32 idx)) .release = some (g, .ended) ∧
      Run (step64 asI32) Any (Sys.new .p2c addrs) (pickEvents idx) ⟨g, [.ended]⟩ := by
  have hvalid := valid_new .p2c addrs
  have hload : ∀ i, i < addrs.length → (Selector.new .p2c addrs).counters.inflight[i]? = some 0 := by
    intro i hi
    exact (List.getElem?_replicate ..).trans (if_pos hi)
  have hdraw : act asI32 (Selector.new .p2c addrs) .p2cDraw (.random idx 0) =
      some (Selector.new .p2c addrs, .p2cOther idx 0) := by
    have hbounds : idx < addrs.length ∧ 0 < addrs.length - 1 := ⟨hidx, by omega⟩
    have hother : (if idx ≤ 0 then 0 + 1 else 0) = 0 := if_neg (by omega)
    exact (if_pos hbounds).trans (by rw [hother])
  have hother : act asI32 (Selector.new .p2c addrs) (.p2cOther idx 0) (.load false) =
      some (Selector.new .p2c addrs, .p2cOwn idx 0 0) := by
    rw [act, hload 0 (by omega)]
  have hown : act asI32 (Selector.new .p2c addrs) (.p2cOwn idx 0 0) (.load false) =
      some (Selector.new .p2c addrs, .pickTotal idx 0) := by
    rw [act, hload idx hidx]
    rfl
  obtain ⟨mid, htotal, hinflight⟩ := pick_alone asI32 hvalid idx 0
  obtain ⟨g, hrelease⟩ : ∃ g, act64 asI32 ((Selector.new .p2c addrs).picked idx) (.held idx (asI32 idx)) .release =
      some (g, .ended) := ⟨_, rfl⟩
  have hnext : Run (step64 asI32) Any (Sys.new .p2c addrs) [.next] ⟨Selector.new .p2c addrs, [.p2cDraw]⟩ :=
    .one trivial rfl
  have hpicked := ((hnext.snoc trivial (step64_last [] (act64_of_act hvalid hdraw))).snoc trivial
    (step64_last [] (act64_of_act hvalid hother))).snoc trivial (step64_last [] (act64_of_act hvalid hown))
  exact ⟨g, hrelease, ((hpicked.snoc trivial (step64_last [] htotal)).snoc trivial (step64_last [] hinflight)).snoc trivial
    (step64_last [] hrelease)⟩

/-- A token that became negative is not given back. -/
theorem not_ledger_of_negative (hidx : idx < addrs.length) (hpos : 0 < idx) (hneg : asI32 idx < 0) :
    ∃ s, Run (step64 asI32) Any (Sys.new .p2c addrs) (pickEvents idx) s ∧ ¬ Ledger s := by
  obtain ⟨g, hrelease, hrun⟩ := run_pickEvents hidx hpos
  refine ⟨_, hrun, fun h => ?_⟩
  obtain ⟨sel, hacted, rfl⟩ := acted_of_act64 hrelease
  have hinflight := h.inflight idx
  cases hacted with
  | release =>
    have hone : load ((Selector.new .p2c addrs).picked idx).counters.inflight idx = 1 := by
      refine load_of_getElem? ?_
      simp [Selector.picked, Counters.pick, Selector.new, Counters.new, hidx]
      decide
    have hload : load (((Selector.new .p2c addrs).picked idx).counters.inflight.map asI64) idx = 1 := by
      rw [load_wrap, hone]
      decide
    unfold load at hload
    simp only [Selector.wrap, Counters.wrap, Counters.release, if_neg (Int.not_le.2 hneg)] at hinflight
    rw [hload] at hinflight
    simp [Selector.picked, Selector.new] at hinflight

end LongList

/-- **The counter-example.**  `2 ^ 31 + 1` upstreams: the number of the last one is no `i32`, its token is negative, and
`release` does nothing. -/
theorem long_list_leaks :
    ¬ ∀ (kind : Kind) (addrs : List String) (es : List Ev) (s : Sys), addrs ≠ [] → (kind = .p2c → 2 ≤ addrs.length) →
      Run (step64 asI32) Any (Sys.new kind addrs) es s → Ledger s := by
  intro h
  have hlen : (List.replicate (2 ^ 31 + 1) "a").length = 2 ^ 31 + 1 := List.length_replicate
  obtain ⟨s, hrun, hnot⟩ := @not_ledger_of_negative (List.replicate (2 ^ 31 + 1) "a") (2 ^ 31) (by rw [hlen]; omega)
    (by omega) (by decide)
  refine hnot (h _ _ _ _ ?_ (fun _ => ?_) hrun)
  · apply List.ne_nil_of_length_pos
    rw [hlen]
    omega
  · rw [hlen]
    omega

/-! ## What resets report -/

/-- The total of the upstream `i` in a snapshot. -/
def totalAt (snap : List UpstreamStat) (i : ℕ) : ℤ := (snap.map UpstreamStat.total).getD i 0

/-- What a call of `stats(true)` has loaded from `total[i]`. -/
def Pc.loaded (i : ℕ) : Pc → ℤ
  | .statsLoad true snap | .statsDone true snap => totalAt snap i
  | .statsSub total snap | .statsInflight true total snap => if snap.length = i then total else totalAt snap i
  | _ => 0

/-- What a call of `stats(true)` has loaded from `total[i]` and is about to subtract. -/
def Pc.pending (i : ℕ) : Pc → ℤ
  | .statsSub total snap => if snap.length = i then total else 0
  | _ => 0

/-- What a call of `stats(true)` has returned for the upstream `i`. -/
def Pc.returned (i : ℕ) : Pc → ℤ
  | .statsDone true snap => totalAt snap i
  | _ => 0

/-- A reset that loads `total[i]` finds no other one that has loaded a total of it other than `0` and not subtracted it. -/
def Apart (s : Sys) : Ev → Prop
  | .run k (.load _) =>
    match s.tasks[k]? with
    | some (.statsLoad true snap) => ∀ pc ∈ s.tasks, pc.pending snap.length = 0
    | _ => True
  | _ => True

instance (s : Sys) (e : Ev) : Decidable (Apart s e) := by
  unfold Apart
  split
  · split <;> infer_instance
  · infer_instance

/-- **No pick is reported twice**: the totals are not negative, and the resets have returned no more than was picked. -/
def ReportedOnce (s : Sys) : Prop :=
  ∀ i, 0 ≤ s.shared.counters.total.getD i 0 ∧ sumOf (Pc.returned i) s.tasks ≤ s.shared.log.count (.addTotal i)

/-- **The invariant**: what was loaded is what was subtracted and what is pending, no total is negative, and what is pending
is still there. -/
structure Reported (s : Sys) : Prop where
  loaded : ∀ i, sumOf (Pc.loaded i) s.tasks = subtracted s.shared.log i + sumOf (Pc.pending i) s.tasks
  nonneg : ∀ pc ∈ s.tasks, ∀ i, 0 ≤ pc.loaded i
  pending : ∀ i, sumOf (Pc.pending i) s.tasks ≤ s.shared.counters.total.getD i 0

theorem totalAt_append (snap : List UpstreamStat) (stat : UpstreamStat) (i : ℕ) :
    totalAt (snap ++ [stat]) i = if snap.length = i then stat.total else totalAt snap i := by
  simp only [totalAt, List.getD_eq_getElem?_getD, List.map_append, List.getElem?_append, List.length_map, List.map_cons,
    List.map_nil]
  by_cases hlt : i < snap.length
  · rw [if_pos hlt, if_neg (by omega)]
  · rw [if_neg hlt, List.getElem?_singleton, List.getElem?_eq_none (by simpa using hlt)]
    split_ifs <;> first | omega | rfl

theorem totalAt_nil (i : ℕ) : totalAt [] i = 0 := rfl

theorem loaded_scan (n j best : ℕ) (bestLoad : ℤ) (ties : ℕ) :
    (scan n j best bestLoad ties).loaded i = 0 ∧ (scan n j best bestLoad ties).pending i = 0 := by
  unfold scan
  split_ifs <;> exact ⟨rfl, rfl⟩

theorem loaded_stats (n : ℕ) (reset : Bool) (snap : List UpstreamStat) :
    (stats n reset snap).loaded i = (if reset then totalAt snap i else 0) ∧ (stats n reset snap).pending i = 0 := by
  unfold stats
  split_ifs with hlt hreset hreset
  all_goals first | subst hreset | obtain rfl := Bool.eq_false_of_not_eq_true hreset
  all_goals exact ⟨rfl, rfl⟩

theorem loaded_next (kind : Kind) : kind.next.loaded i = 0 ∧ kind.next.pending i = 0 := by
  cases kind <;> exact ⟨rfl, rfl⟩

theorem Pc.pending_nonneg (h : ∀ i, 0 ≤ pc.loaded i) (i : ℕ) : 0 ≤ pc.pending i := by
  cases pc with
  | statsSub total snap =>
    have hi := h i
    simp only [Pc.loaded, Pc.pending] at hi ⊢
    split_ifs at hi ⊢
    · exact hi
    · exact Int.le_refl 0
  | _ => exact Int.le_refl 0

theorem sumOf_pending_nonneg {tasks : List Pc} (h : ∀ pc ∈ tasks, ∀ i, 0 ≤ pc.loaded i) (i : ℕ) :
    0 ≤ sumOf (Pc.pending i) tasks := by
  have hmono : sumOf (fun _ => 0) tasks ≤ sumOf (Pc.pending i) tasks :=
    sumOf_mono fun pc hpc => pc.pending_nonneg (h pc hpc) i
  rwa [sumOf_eq_zero fun _ _ => rfl] at hmono

theorem Reported.quiet (h : Reported s) (hk : s.tasks[k]? = some pc)
    (hsub : ∀ i, subtracted sel.log i = subtracted s.shared.log i)
    (htotal : ∀ i, s.shared.counters.total.getD i 0 ≤ sel.counters.total.getD i 0)
    (hloaded : ∀ i, pc'.loaded i = pc.loaded i ∧ pc'.pending i = pc.pending i) : Reported ⟨sel, s.tasks.set k pc'⟩ := by
  have hsum : ∀ i, sumOf (Pc.loaded i) (s.tasks.set k pc') = sumOf (Pc.loaded i) s.tasks ∧
      sumOf (Pc.pending i) (s.tasks.set k pc') = sumOf (Pc.pending i) s.tasks := by
    intro i
    have h1 := sumOf_set (Pc.loaded i) hk pc'
    have h2 := sumOf_set (Pc.pending i) hk pc'
    rw [(hloaded i).1] at h1
    rw [(hloaded i).2] at h2
    exact ⟨by omega, by omega⟩
  refine ⟨fun i => ?_, fun q hq i => ?_, fun i => ?_⟩
  · rw [(hsum i).1, (hsum i).2, hsub]
    exact h.loaded i
  · rcases List.mem_or_eq_of_mem_set hq with hq | rfl
    · exact h.nonneg q hq i
    · rw [(hloaded i).1]
      exact h.nonneg pc (List.mem_of_getElem? hk) i
  · rw [(hsum i).2]
    exact Int.le_trans (h.pending i) (htotal i)

theorem totalAt_length (snap : List UpstreamStat) : totalAt snap snap.length = 0 := by
  simp [totalAt, List.getD_eq_getElem?_getD]

theorem Reported.loads {snap : List UpstreamStat} {total : ℤ} (h : Reported s)
    (hk : s.tasks[k]? = some (.statsLoad true snap)) (htotal : s.shared.counters.total[snap.length]? = some total)
    (hapart : ∀ pc ∈ s.tasks, pc.pending snap.length = 0) :
    Reported ⟨s.shared, s.tasks.set k (.statsSub total snap)⟩ := by
  have hget : s.shared.counters.total.getD snap.length 0 = total := by
    rw [List.getD_eq_getElem?_getD, htotal, Option.getD_some]
  have hsum : sumOf (Pc.pending snap.length) s.tasks = 0 := sumOf_eq_zero hapart
  have hnonneg : 0 ≤ total := by
    have hpending := h.pending snap.length
    omega
  refine ⟨fun i => ?_, fun q hq i => ?_, fun i => ?_⟩
  · have h1 := sumOf_set (Pc.loaded i) hk (.statsSub total snap)
    have h2 := sumOf_set (Pc.pending i) hk (.statsSub total snap)
    have hloaded := h.loaded i
    simp only [Pc.loaded, Pc.pending] at h1 h2 ⊢
    by_cases hi : snap.length = i
    · subst hi
      rw [totalAt_length] at h1
      simp only [if_true] at h1 h2
      omega
    · simp only [hi, if_false] at h1 h2
      omega
  · rcases List.mem_or_eq_of_mem_set hq with hq | rfl
    · exact h.nonneg q hq i
    · have hold := h.nonneg _ (List.mem_of_getElem? hk) i
      simp only [Pc.loaded] at hold ⊢
      split_ifs
      · exact hnonneg
      · exact hold
  · have h2 := sumOf_set (Pc.pending i) hk (.statsSub total snap)
    have hpending := h.pending i
    simp only [Pc.pending] at h2 ⊢
    split_ifs at h2 with hi
    · subst hi
      omega
    · omega

theorem Reported.subtracts {snap : List UpstreamStat} {total : ℤ} (h : Reported s)
    (hk : s.tasks[k]? = some (.statsSub total snap)) (hlen : snap.length < s.shared.counters.total.length)
    (htotal : sel.counters.total = fetchAddAt s.shared.counters.total snap.length (-total))
    (hlog : sel.log = s.shared.log ++ [.subTotal snap.length total]) :
    Reported ⟨sel, s.tasks.set k (.statsInflight true total snap)⟩ := by
  refine ⟨fun i => ?_, fun q hq i => ?_, fun i => ?_⟩
  · have h1 := sumOf_set (Pc.loaded i) hk (.statsInflight true total snap)
    have h2 := sumOf_set (Pc.pending i) hk (.statsInflight true total snap)
    have hloaded := h.loaded i
    simp only [hlog, subtracted_append, Op.subtracts]
    simp only [Pc.loaded, Pc.pending] at h1 h2
    split_ifs at h1 h2 ⊢ <;> omega
  · rcases List.mem_or_eq_of_mem_set hq with hq | rfl
    · exact h.nonneg q hq i
    · exact h.nonneg _ (List.mem_of_getElem? hk) i
  · have h2 := sumOf_set (Pc.pending i) hk (.statsInflight true total snap)
    have hpending := h.pending i
    simp only [htotal, getD_fetchAddAt hlen]
    simp only [Pc.pending] at h2
    split_ifs at h2 ⊢ <;> omega

theorem reported_act (h : Reported s) (hk : s.tasks[k]? = some pc) (ha : Acted asToken s.shared pc a sel pc')
    (hlen : s.shared.counters.total.length = addrs.length) (hpc : pc.InRange addrs.length) (hapart : Apart s (.run k a)) :
    Reported ⟨sel, s.tasks.set k pc'⟩ := by
  have hle : ∀ i, s.shared.counters.total.getD i 0 ≤ s.shared.counters.total.getD i 0 := fun i => Int.le_refl _
  cases ha with
  | @statsLoad reset tie snap total htotal =>
    cases reset with
    | true => exact h.loads hk htotal (by simpa only [Apart, hk] using hapart)
    | false => exact h.quiet hk (fun _ => rfl) hle fun _ => ⟨rfl, rfl⟩
  | statsSub => exact h.subtracts hk (by rw [hlen]; exact hpc) rfl rfl
  | @statsInflight reset tie total inflight snap addr =>
    refine h.quiet hk (fun _ => rfl) hle fun i => ?_
    obtain ⟨h1, h2⟩ := loaded_stats (i := i) s.shared.counters.addrs.length reset (snap ++ [⟨addr, total, inflight⟩])
    rw [h1, h2, totalAt_append]
    cases reset <;> exact ⟨rfl, rfl⟩
  | @pickTotal idx seen =>
    have hidx : idx < s.shared.counters.total.length := by
      rw [hlen]
      exact hpc
    refine h.quiet hk (fun i => by simp [Op.subtracts]) (fun i => ?_) fun _ => ⟨rfl, rfl⟩
    simp only [getD_fetchAddAt hidx]
    split_ifs <;> omega
  | pickInflight => exact h.quiet hk (fun i => by simp [Op.subtracts]) hle fun _ => ⟨rfl, rfl⟩
  | release =>
    refine h.quiet hk (fun i => by simp [Op.subtracts]) (fun i => ?_) fun _ => ⟨rfl, rfl⟩
    simp only [total_release]
    exact hle i
  | leastFirst | less | tie | more => exact h.quiet hk (fun _ => rfl) hle fun _ => loaded_scan ..
  | p2cOwn => exact h.quiet hk (fun _ => rfl) hle fun _ => by split_ifs <;> exact ⟨rfl, rfl⟩
  | _ => exact h.quiet hk (fun _ => rfl) hle fun _ => ⟨rfl, rfl⟩

theorem Reported.come (h : Reported s) (hpc : ∀ i, pc.loaded i = 0 ∧ pc.pending i = 0) :
    Reported ⟨s.shared, s.tasks ++ [pc]⟩ := by
  refine ⟨fun i => ?_, forall_mem_concat h.nonneg fun i => ?_, fun i => ?_⟩
  · simpa [(hpc i).1, (hpc i).2] using h.loaded i
  · rw [(hpc i).1]
  · simpa [(hpc i).2] using h.pending i

/-- What a reset subtracts is still there. -/
theorem Reported.subRoom (h : Reported s) (hfit : s.shared.Fit) (hk : s.tasks[k]? = some pc) :
    pc.subRoom s.shared.counters = true := by
  cases pc with
  | statsSub total snap =>
    have hmem := List.mem_of_getElem? hk
    have htotal : 0 ≤ total := by
      have hloaded := h.nonneg _ hmem snap.length
      simpa only [Pc.loaded, if_true] using hloaded
    have hpending : total ≤ sumOf (Pc.pending snap.length) s.tasks := by
      have hset := sumOf_set (Pc.pending snap.length) hk .ended
      have hothers : 0 ≤ sumOf (Pc.pending snap.length) (s.tasks.set k .ended) :=
        sumOf_pending_nonneg (forall_mem_set h.nonneg (show ∀ i, 0 ≤ Pc.ended.loaded i from fun _ => Int.le_refl 0) k) _
      simp only [Pc.pending, if_true] at hset
      omega
    have hle : sumOf (Pc.pending snap.length) s.tasks ≤ load s.shared.counters.total snap.length := h.pending snap.length
    have hmax := hfit.total snap.length
    refine decide_eq_true ?_
    unfold IsI64 at hmax ⊢
    omega
  | _ => rfl

theorem Reported.wrap {tasks : List Pc} (h : Reported ⟨sel, tasks⟩) (hfit : ∀ i, IsI64 (load sel.counters.total i)) :
    Reported ⟨sel.wrap, tasks⟩ := by
  refine ⟨h.loaded, h.nonneg, fun i => ?_⟩
  have htotal : load sel.wrap.counters.total i = load sel.counters.total i := load_wrap_of_isI64 (hfit i)
  unfold load at htotal
  simp only [htotal]
  exact h.pending i

/-- **Every step keeps the invariant**, as long as resets stay apart and no pick finds its total at `i64::MAX`. -/
theorem reported_step (h : Reported s) (hshape : Shape addrs s) (hfit : s.shared.Fit) (hapart : Apart s e)
    (hroom : Room Pc.totalRoom s e) (hs : step64 asToken s e = some t) : Reported t := by
  cases stepped64_of_step64 hs with
  | next => exact h.come fun _ => loaded_next _
  | @stats reset =>
    refine h.come fun i => ?_
    obtain ⟨h1, h2⟩ := loaded_stats (i := i) s.shared.counters.addrs.length reset []
    refine ⟨?_, h2⟩
    rw [h1, totalAt_nil, ite_self]
  | @run k a pc pc' sel hk ha =>
    have hact := reported_act h hk ha hshape.total (hshape.inRange _ (List.mem_of_getElem? hk)) hapart
    exact hact.wrap (ha.fit_total hfit.total (hroom pc hk) (h.subRoom hfit hk))

theorem reported_new (kind : Kind) (addrs : List String) : Reported (Sys.new kind addrs) :=
  ⟨fun _ => rfl, nofun, fun i => Int.le_of_eq (load_replicate addrs.length i).symm⟩

theorem Pc.returned_le (h : ∀ i, 0 ≤ pc.loaded i) (i : ℕ) : pc.returned i ≤ pc.loaded i := by
  cases pc with
  | statsDone reset snap =>
    cases reset <;> exact Int.le_refl _
  | _ => exact h i

theorem Reported.room_subRoom (h : Reported s) (hfit : s.shared.Fit) : Room Pc.subRoom s e := by
  cases e with
  | run k a => exact fun pc hk => h.subRoom hfit hk
  | next => trivial
  | stats => trivial

/-- **No pick is reported by two resets, as long as the resets stay apart.**  In every interleaving of picks, releases and
calls of `stats` in which no reset loads a total that another one has loaded (as more than `0`) and not yet subtracted, and no
pick finds its total at `i64::MAX`, no total is negative, and what the resets returned for an upstream is at most what was
picked there. -/
theorem reportedOnce_of_apart {kind : Kind} {es : List Ev}
    (h : Run (step64 asToken) (fun s e => Apart s e ∧ Room Pc.totalRoom s e) (Sys.new kind addrs) es s) : ReportedOnce s := by
  have hinv : Shape addrs s ∧ s.shared.Fit ∧ Reported s ∧ ∀ i, s.shared.drift i = 0 := by
    refine h.invariant (I := fun s => Shape addrs s ∧ s.shared.Fit ∧ Reported s ∧ ∀ i, s.shared.drift i = 0)
      ⟨shape_new kind addrs, fit_new kind addrs, reported_new kind addrs, fun _ => drift_new kind addrs⟩ ?_
    rintro u e v ⟨hshape, hfit, hu, hdrift⟩ ⟨hapart, hroom⟩ hs
    refine ⟨shape_step64 hshape hs, fit_step64 hfit hs, reported_step hu hshape hfit hapart hroom hs, fun i => ?_⟩
    rw [drift_step64_of_room hshape hfit hroom (hu.room_subRoom hfit) hs, hdrift]
  obtain ⟨-, -, hrep, hdrift⟩ := hinv
  intro i
  have hpending := hrep.pending i
  have hpos := sumOf_pending_nonneg hrep.nonneg i
  have hle : sumOf (Pc.returned i) s.tasks ≤ sumOf (Pc.loaded i) s.tasks :=
    sumOf_mono fun pc hpc => pc.returned_le (hrep.nonneg pc hpc) i
  have hloaded := hrep.loaded i
  have hcount := hdrift i
  unfold Selector.drift load at hcount
  exact ⟨by omega, by omega⟩

/-- Two resets one after the other, and a pick between the halves of the first one. -/
def apartEvents : List Ev :=
  [.next, .run 0 (.load false), .run 0 .fetchAdd, .run 0 .fetchAdd, .stats true, .stats true, .run 1 (.load false), .next,
    .run 3 (.load false), .run 3 .fetchAdd, .run 1 .fetchSub, .run 2 (.load false), .run 1 (.load false), .run 2 .fetchSub,
    .run 2 (.load false)]

theorem reportedOnce_of_apart_pick :
    ∃ s, Run (step64 asI32) (fun s e => Apart s e ∧ Room Pc.totalRoom s e) (Sys.new .leastConn ["a"]) apartEvents s ∧
      sumOf (Pc.returned 0) s.tasks = 2 ∧ ReportedOnce s := by
  have hrun : Run (step64 asI32) (fun s e => Apart s e ∧ Room Pc.totalRoom s e) (Sys.new .leastConn ["a"]) apartEvents _ :=
    Run.of_exec_get (by decide)
  exact ⟨_, hrun, by decide, reportedOnce_of_apart hrun⟩

/-- **The counter-example.**  Two resets load the same pick before either of them subtracts it. -/
theorem overlapping_resets_report_twice :
    ¬ ∀ (kind : Kind) (addrs : List String) (es : List Ev) (s : Sys), addrs ≠ [] →
      Run (step64 asI32) Any (Sys.new kind addrs) es s → ReportedOnce s := by
  intro h
  have hrun : Run (step64 asI32) Any (Sys.new .leastConn ["a"])
      [.next, .run 0 (.load false), .run 0 .fetchAdd, .stats true, .stats true, .run 1 (.load false), .run 2 (.load false),
       .run 1 .fetchSub, .run 2 .fetchSub, .run 1 (.load false), .run 2 (.load false)] _ := Run.of_exec_get (by decide)
  have htwo := (h _ _ _ _ (by decide) hrun 0).2
  revert htwo
  decide

end ServiceProxy.Upstream.Selectors
