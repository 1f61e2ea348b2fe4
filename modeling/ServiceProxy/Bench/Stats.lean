import Mathlib.Data.Finmap
import Mathlib.Data.Rat.Floor
import ServiceProxy.Lib.OrderStatistics

/-!
# The report of the load generator (`go/cmd/quic-bench-client/stats.go`)

A time is a reading of the monotonic clock in nanoseconds; `Sub` saturates, as a `time.Duration` is an `int64`.  The product
`p * n` of `percentile` is taken exactly.  A Go map has no order: `errorCounts` is a `Finmap`.  An index out of range panics;
this is `none`.

* `percentile_eq` — nearest-rank indexing is an order statistic, whatever its two clamps do;
* `computeReport_eq` — the report in terms of the two series and of the error messages;
* `report_sound` — it does not depend on the order of the samples, its counts add up, its percentiles have their ranks, and
  the corrected ones are not below the raw ones.
-/

namespace ServiceProxy.Bench

open ServiceProxy.Lib

/-! ## The code -/

/-- A reading of the clock, in nanoseconds. -/
abbrev Time := ℤ

/-- `Time.Sub`: the difference, or the nearest `time.Duration`. -/
def Time.sub (t u : Time) : ℤ := max (-2 ^ 63) (min (2 ^ 63 - 1) (t - u))

/-- `type sample`.  `err` is what `Error()` returns. -/
structure Sample where
  seq : Int64
  intendedSend : Time
  actualSend : Time
  completed : Time
  err : Option String
  deriving DecidableEq, Repr

/-- `type latencyStats`. -/
structure LatencyStats where
  p50 : ℤ
  p99 : ℤ
  p999 : ℤ
  min : ℤ
  max : ℤ
  deriving DecidableEq, Repr

/-- A `map[string]int`. -/
abbrev Counts := Finmap fun _ : String => ℕ

/-- `type report`. -/
structure Report where
  offered : ℕ
  completed : ℕ
  errored : ℕ
  wallClock : ℤ
  correctedStats : LatencyStats
  rawStats : LatencyStats
  errorCounts : Counts
  deriving DecidableEq

/-- `m[msg]++`. -/
def Counts.inc (m : Counts) (msg : String) : Counts := m.insert msg ((m.lookup msg).getD 0 + 1)

/-- `percentile`. -/
def percentile (sorted : List ℤ) (p : ℚ) : Option ℤ :=
  let idx : ℤ := ⌈p * sorted.length⌉ - 1
  let idx : ℤ := if idx < 0 then 0 else idx
  let idx : ℤ := if sorted.length ≤ idx then sorted.length - 1 else idx
  if idx < 0 then none else sorted[idx.toNat]?

/-- `computeLatencyStats`. -/
def computeLatencyStats (d : List ℤ) : Option LatencyStats :=
  if d.length = 0 then some ⟨0, 0, 0, 0, 0⟩
  else do
    let sorted := d.insertionSort (· ≤ ·)
    let p50 ← percentile sorted (50 / 100)
    let p99 ← percentile sorted (99 / 100)
    let p999 ← percentile sorted (999 / 1000)
    let min ← sorted[0]?
    let max ← sorted[sorted.length - 1]?
    some { p50, p99, p999, min, max }

/-- What the loop of `computeReport` has added up. -/
structure Sums where
  completed : ℕ
  errored : ℕ
  errorCounts : Counts
  corrected : List ℤ
  raw : List ℤ

/-- The body of the loop of `computeReport`. -/
def Sums.add (a : Sums) (s : Sample) : Sums :=
  match s.err with
  | some msg => { a with errored := a.errored + 1, errorCounts := a.errorCounts.inc msg }
  | none =>
    { a with
      completed := a.completed + 1
      corrected := a.corrected ++ [Time.sub s.completed s.intendedSend]
      raw := a.raw ++ [Time.sub s.completed s.actualSend] }

/-- `computeReport`. -/
def computeReport (samples : List Sample) (wallClock : ℤ) : Option Report := do
  let a := samples.foldl Sums.add { completed := 0, errored := 0, errorCounts := ∅, corrected := [], raw := [] }
  let correctedStats ← computeLatencyStats a.corrected
  let rawStats ← computeLatencyStats a.raw
  some
    { offered := samples.length, completed := a.completed, errored := a.errored, wallClock, correctedStats, rawStats
      errorCounts := a.errorCounts }

/-! ## Percentiles -/

section Percentile

variable {d : List ℤ} {p : ℚ}

/-- The rank that `percentile` looks up, counted from `1`. -/
def rankOf (p : ℚ) (d : List ℤ) : ℕ := ⌈p * d.length⌉₊

theorem rankOf_bounds (hp : 0 < p) (hp' : p ≤ 1) (hd : d ≠ []) : 1 ≤ rankOf p d ∧ rankOf p d ≤ d.length := by
  have hlen : (0 : ℚ) < d.length := by
    have := List.length_pos_iff.2 hd
    exact_mod_cast this
  constructor
  · exact Nat.ceil_pos.2 (mul_pos hp hlen)
  · exact Nat.ceil_le.2 (mul_le_of_le_one_left hlen.le hp')

/-- **The two clamps do nothing**: nearest-rank indexing is an order statistic. -/
theorem percentile_eq (hp : 0 < p) (hp' : p ≤ 1) (hd : d ≠ []) :
    percentile (d.insertionSort (· ≤ ·)) p = orderStat d (rankOf p d - 1) := by
  obtain ⟨hlow, hhigh⟩ := rankOf_bounds hp hp' hd
  have hceil : ⌈p * d.length⌉ = (rankOf p d : ℤ) := by
    have hnonneg : 0 ≤ p * d.length := by positivity
    rw [rankOf, Int.natCast_ceil_eq_ceil hnonneg]
  unfold percentile
  simp only [List.length_insertionSort, hceil]
  rw [if_neg (by omega), if_neg (by omega), if_neg (by omega)]
  unfold orderStat
  congr 1
  omega

/-- The statistics are these order statistics of the series. -/
structure LatencyStats.Ranks (s : LatencyStats) (d : List ℤ) : Prop where
  p50 : orderStat d (rankOf (50 / 100) d - 1) = some s.p50
  p99 : orderStat d (rankOf (99 / 100) d - 1) = some s.p99
  p999 : orderStat d (rankOf (999 / 1000) d - 1) = some s.p999
  min : orderStat d 0 = some s.min
  max : orderStat d (d.length - 1) = some s.max

/-- **`computeLatencyStats`** never panics. -/
theorem computeLatencyStats_ranks (hd : d ≠ []) : ∃ s, computeLatencyStats d = some s ∧ s.Ranks d := by
  have hlen := List.length_pos_iff.2 hd
  have hget : ∀ k, k < d.length → ∃ v, orderStat d k = some v :=
    fun k hk => Option.isSome_iff_exists.1 (orderStat_isSome.2 hk)
  have hrank : ∀ p : ℚ, 0 < p → p ≤ 1 → ∃ v, orderStat d (rankOf p d - 1) = some v := by
    intro p hp hp'
    obtain ⟨hlow, hhigh⟩ := rankOf_bounds hp hp' hd
    exact hget _ (by omega)
  obtain ⟨p50, hp50⟩ := hrank (50 / 100) (by norm_num) (by norm_num)
  obtain ⟨p99, hp99⟩ := hrank (99 / 100) (by norm_num) (by norm_num)
  obtain ⟨p999, hp999⟩ := hrank (999 / 1000) (by norm_num) (by norm_num)
  obtain ⟨min, hmin⟩ := hget 0 hlen
  obtain ⟨max, hmax⟩ := hget (d.length - 1) (by omega)
  refine ⟨⟨p50, p99, p999, min, max⟩, ?_, hp50, hp99, hp999, hmin, hmax⟩
  unfold computeLatencyStats
  rw [if_neg (by omega)]
  simp only [percentile_eq (p := 50 / 100) (by norm_num) (by norm_num) hd,
    percentile_eq (p := 99 / 100) (by norm_num) (by norm_num) hd,
    percentile_eq (p := 999 / 1000) (by norm_num) (by norm_num) hd, hp50, hp99, hp999, List.length_insertionSort]
  rw [show (d.insertionSort (· ≤ ·))[0]? = some min from hmin,
    show (d.insertionSort (· ≤ ·))[d.length - 1]? = some max from hmax]
  rfl

theorem computeLatencyStats_perm {d' : List ℤ} (h : d.Perm d') : computeLatencyStats d = computeLatencyStats d' := by
  unfold computeLatencyStats
  rw [insertionSort_perm h, h.length_eq]

/-- **The nearest rank**: the value occurs, and enough values lie on either side of it. -/
structure NearestRank (d : List ℤ) (p : ℚ) (v : ℤ) : Prop where
  mem : v ∈ d
  below : ⌈p * d.length⌉₊ ≤ d.countP (· ≤ v)
  above : d.length - ⌈p * d.length⌉₊ + 1 ≤ d.countP (v ≤ ·)

theorem nearestRank_of_orderStat {v : ℤ} (hp : 0 < p) (hp' : p ≤ 1) (hd : d ≠ [])
    (h : orderStat d (rankOf p d - 1) = some v) : NearestRank d p v := by
  obtain ⟨hlow, hhigh⟩ := rankOf_bounds hp hp' hd
  obtain ⟨hbelow, habove⟩ := orderStat_rank h
  unfold rankOf at *
  exact ⟨mem_of_orderStat h, by omega, by omega⟩

/-- What the statistics of a series are. -/
structure LatencyStats.Describe (s : LatencyStats) (d : List ℤ) : Prop where
  p50 : NearestRank d (50 / 100) s.p50
  p99 : NearestRank d (99 / 100) s.p99
  p999 : NearestRank d (999 / 1000) s.p999
  min_le : s.min ≤ s.p50
  p50_le : s.p50 ≤ s.p99
  p99_le : s.p99 ≤ s.p999
  p999_le : s.p999 ≤ s.max

theorem rankOf_mono {q : ℚ} (hpq : p ≤ q) : rankOf p d ≤ rankOf q d := by
  unfold rankOf
  gcongr

theorem LatencyStats.Ranks.describe {s : LatencyStats} (h : s.Ranks d) (hd : d ≠ []) : s.Describe d where
  p50 := nearestRank_of_orderStat (by norm_num) (by norm_num) hd h.p50
  p99 := nearestRank_of_orderStat (by norm_num) (by norm_num) hd h.p99
  p999 := nearestRank_of_orderStat (by norm_num) (by norm_num) hd h.p999
  min_le := orderStat_mono h.min h.p50 (Nat.zero_le _)
  p50_le := orderStat_mono h.p50 h.p99 (Nat.sub_le_sub_right (rankOf_mono (by norm_num)) 1)
  p99_le := orderStat_mono h.p99 h.p999 (Nat.sub_le_sub_right (rankOf_mono (by norm_num)) 1)
  p999_le := orderStat_mono h.p999 h.max (Nat.sub_le_sub_right (rankOf_bounds (by norm_num) (by norm_num) hd).2 1)

/-- Each of the five statistics is at most the other one. -/
structure LatencyStats.Le (s t : LatencyStats) : Prop where
  p50 : s.p50 ≤ t.p50
  p99 : s.p99 ≤ t.p99
  p999 : s.p999 ≤ t.p999
  min : s.min ≤ t.min
  max : s.max ≤ t.max

/-- **Two series, sorted independently.** -/
theorem LatencyStats.Ranks.le {s t : LatencyStats} {d' : List ℤ} (hle : List.Forall₂ (· ≤ ·) d d') (h : s.Ranks d)
    (h' : t.Ranks d') : s.Le t := by
  have hrank : ∀ p, rankOf p d' = rankOf p d := fun p => by rw [rankOf, rankOf, hle.length_eq]
  obtain ⟨h50, h99, h999, hmin, hmax⟩ := h'
  rw [hrank] at h50 h99 h999
  rw [← hle.length_eq] at hmax
  exact ⟨orderStat_dominated hle h.p50 h50, orderStat_dominated hle h.p99 h99, orderStat_dominated hle h.p999 h999,
    orderStat_dominated hle h.min hmin, orderStat_dominated hle h.max hmax⟩

end Percentile

/-! ## Counts -/

def Counts.total (m : Counts) : ℕ := (m.entries.map Sigma.snd).sum

section Counts

variable {m : Counts} {msg : String}

theorem total_insert (h : msg ∉ m) (n : ℕ) : Counts.total (m.insert msg n) = n + Counts.total m := by
  unfold Counts.total
  rw [Finmap.entries_insert_of_notMem h, Multiset.map_cons, Multiset.sum_cons]

theorem total_inc (m : Counts) (msg : String) : (m.inc msg).total = m.total + 1 := by
  unfold Counts.inc
  cases hlookup : m.lookup msg with
  | none =>
    rw [total_insert (Finmap.lookup_eq_none.1 hlookup), Option.getD_none]
    omega
  | some n =>
    -- take the message out and put it back
    have hback : m = (m.erase msg).insert msg n := by
      refine Finmap.ext_lookup fun k => ?_
      by_cases hk : k = msg
      · rw [hk, hlookup, Finmap.lookup_insert]
      · rw [Finmap.lookup_insert_of_ne _ hk, Finmap.lookup_erase_ne hk]
    have hnone : msg ∉ m.erase msg := Finmap.notMem_erase_self
    have htotal : m.total = n + Counts.total (m.erase msg) := by rw [← total_insert hnone, ← hback]
    have hinsert : m.insert msg (n + 1) = (m.erase msg).insert msg (n + 1) := by
      conv_lhs => rw [hback, Finmap.insert_insert]
    rw [Option.getD_some, hinsert, total_insert hnone, htotal]
    omega

theorem lookup_inc (m : Counts) (msg k : String) :
    (m.inc msg).lookup k = if k = msg then some ((m.lookup msg).getD 0 + 1) else m.lookup k := by
  unfold Counts.inc
  split_ifs with hk
  · rw [hk, Finmap.lookup_insert]
  · rw [Finmap.lookup_insert_of_ne _ hk]

theorem inc_comm (m : Counts) (a b : String) : (m.inc a).inc b = (m.inc b).inc a := by
  refine Finmap.ext_lookup fun k => ?_
  simp only [lookup_inc]
  by_cases hab : a = b
  · rw [hab]
  · split_ifs <;> simp_all

instance : RightCommutative Counts.inc := ⟨inc_comm⟩

theorem total_foldl_inc (msgs : List String) (m : Counts) :
    (msgs.foldl Counts.inc m).total = m.total + msgs.length := by
  induction msgs generalizing m with
  | nil => rfl
  | cons msg msgs ih =>
    rw [List.foldl_cons, ih, total_inc, List.length_cons]
    omega

end Counts

/-! ## The report -/

def succeeded (samples : List Sample) : List Sample := samples.filter (·.err.isNone)

def messages (samples : List Sample) : List String := samples.filterMap Sample.err

/-- The latency that is corrected for coordinated omission: from the scheduled send to the completion. -/
def Sample.corrected (s : Sample) : ℤ := Time.sub s.completed s.intendedSend

/-- The service time: from the actual send to the completion. -/
def Sample.raw (s : Sample) : ℤ := Time.sub s.completed s.actualSend

section Report

variable {samples samples' : List Sample} {wallClock : ℤ}

theorem length_split (samples : List Sample) : samples.length = (succeeded samples).length + (messages samples).length := by
  induction samples with
  | nil => rfl
  | cons s samples ih =>
    unfold succeeded messages at *
    cases hs : s.err with
    | none =>
      rw [List.filter_cons_of_pos (by rw [hs]; rfl), List.filterMap_cons_none hs, List.length_cons, List.length_cons]
      omega
    | some msg =>
      rw [List.filter_cons_of_neg (by rw [hs]; simp), List.filterMap_cons_some hs, List.length_cons, List.length_cons]
      omega

/-- **What the loop adds up.** -/
theorem foldl_add (samples : List Sample) (a : Sums) :
    samples.foldl Sums.add a =
      { completed := a.completed + (succeeded samples).length
        errored := a.errored + (messages samples).length
        errorCounts := (messages samples).foldl Counts.inc a.errorCounts
        corrected := a.corrected ++ (succeeded samples).map Sample.corrected
        raw := a.raw ++ (succeeded samples).map Sample.raw } := by
  induction samples generalizing a with
  | nil => simp [succeeded, messages]
  | cons s samples ih =>
    rw [List.foldl_cons, ih]
    unfold succeeded messages Sums.add
    cases hs : s.err with
    | none =>
      rw [List.filter_cons_of_pos (by rw [hs]; rfl), List.filterMap_cons_none hs]
      simp only [List.length_cons, List.map_cons, List.append_assoc, List.singleton_append, Sums.mk.injEq, true_and]
      exact ⟨by omega, rfl, rfl⟩
    | some msg =>
      rw [List.filter_cons_of_neg (by rw [hs]; simp), List.filterMap_cons_some hs]
      simp only [List.length_cons, List.foldl_cons, Sums.mk.injEq, and_true, true_and]
      omega

/-- **`computeReport`** in terms of the two series and the error messages. -/
theorem computeReport_eq (samples : List Sample) (wallClock : ℤ) :
    computeReport samples wallClock =
      (computeLatencyStats ((succeeded samples).map Sample.corrected)).bind fun correctedStats =>
        (computeLatencyStats ((succeeded samples).map Sample.raw)).map fun rawStats =>
          { offered := samples.length, completed := (succeeded samples).length, errored := (messages samples).length
            wallClock, correctedStats, rawStats, errorCounts := (messages samples).foldl Counts.inc ∅ } := by
  unfold computeReport
  simp only [foldl_add, Nat.zero_add, List.nil_append]
  cases computeLatencyStats ((succeeded samples).map Sample.corrected) with
  | none => rfl
  | some correctedStats =>
    cases computeLatencyStats ((succeeded samples).map Sample.raw) <;> rfl

/-- **The order of the samples does not matter.** -/
theorem computeReport_perm (h : samples.Perm samples') : computeReport samples wallClock = computeReport samples' wallClock := by
  have hsucceeded : (succeeded samples).Perm (succeeded samples') := h.filter _
  have hmessages : (messages samples).Perm (messages samples') := h.filterMap _
  rw [computeReport_eq, computeReport_eq, computeLatencyStats_perm (hsucceeded.map Sample.corrected),
    computeLatencyStats_perm (hsucceeded.map Sample.raw), hmessages.foldl_eq, h.length_eq, hsucceeded.length_eq,
    hmessages.length_eq]

theorem computeLatencyStats_isSome (d : List ℤ) : ∃ s, computeLatencyStats d = some s ∧ (d ≠ [] → s.Ranks d) := by
  by_cases hd : d = []
  · exact ⟨⟨0, 0, 0, 0, 0⟩, by rw [hd]; rfl, fun h => absurd hd h⟩
  · obtain ⟨s, hs, hranks⟩ := computeLatencyStats_ranks hd
    exact ⟨s, hs, fun _ => hranks⟩

/-- The subtraction of times is monotone, although it saturates. -/
theorem sub_le_sub {t u v : Time} (h : u ≤ v) : Time.sub t v ≤ Time.sub t u :=
  max_le_max le_rfl (min_le_min le_rfl (Int.sub_le_sub_left h t))

theorem raw_dominated (h : ∀ s ∈ samples, s.err = none → s.intendedSend ≤ s.actualSend) :
    List.Forall₂ (· ≤ ·) ((succeeded samples).map Sample.raw) ((succeeded samples).map Sample.corrected) := by
  rw [List.forall₂_map_left_iff, List.forall₂_map_right_iff, List.forall₂_same]
  intro s hs
  obtain ⟨hmem, hok⟩ := List.mem_filter.1 hs
  exact sub_le_sub (h s hmem (Option.isNone_iff_eq_none.1 hok))

/-- **What holds of a report**, whatever order the samples come in. -/
structure Report.Sound (samples : List Sample) (wallClock : ℤ) (r : Report) : Prop where
  order : ∀ samples', samples'.Perm samples → computeReport samples' wallClock = some r
  offered : r.offered = r.completed + r.errored
  errored : r.errored = r.errorCounts.total
  completed : r.completed = (succeeded samples).length
  corrected : 0 < r.completed → r.correctedStats.Describe ((succeeded samples).map Sample.corrected)
  raw : 0 < r.completed → r.rawStats.Describe ((succeeded samples).map Sample.raw)
  dominated : (∀ s ∈ samples, s.err = none → s.intendedSend ≤ s.actualSend) → r.rawStats.Le r.correctedStats

/-- **The report is well defined and consistent**: for every list of samples there is one, and it is sound. -/
theorem report_sound (samples : List Sample) (wallClock : ℤ) :
    ∃ r, computeReport samples wallClock = some r ∧ r.Sound samples wallClock := by
  obtain ⟨correctedStats, hcorrected, hcorrectedRanks⟩ :=
    computeLatencyStats_isSome ((succeeded samples).map Sample.corrected)
  obtain ⟨rawStats, hraw, hrawRanks⟩ := computeLatencyStats_isSome ((succeeded samples).map Sample.raw)
  have hreport := computeReport_eq samples wallClock
  rw [hcorrected, Option.bind_some, hraw, Option.map_some] at hreport
  have hne : ∀ f : Sample → ℤ, 0 < (succeeded samples).length → (succeeded samples).map f ≠ [] := by
    intro f hpos hnil
    rw [List.map_eq_nil_iff.1 hnil] at hpos
    exact Nat.lt_irrefl 0 hpos
  refine ⟨_, hreport, ?_⟩
  constructor
  case order =>
    intro samples' hperm
    rw [computeReport_perm hperm, hreport]
  case offered => exact length_split samples
  case errored =>
    rw [total_foldl_inc]
    exact (Nat.zero_add _).symm
  case completed => rfl
  case corrected =>
    intro hpos
    exact (hcorrectedRanks (hne _ hpos)).describe (hne _ hpos)
  case raw =>
    intro hpos
    exact (hrawRanks (hne _ hpos)).describe (hne _ hpos)
  case dominated =>
    intro hle
    cases hsucceeded : succeeded samples with
    | nil =>
      -- both series are empty
      rw [hsucceeded] at hcorrected hraw
      obtain rfl := Option.some.inj hcorrected
      obtain rfl := Option.some.inj hraw
      exact ⟨le_rfl, le_rfl, le_rfl, le_rfl, le_rfl⟩
    | cons s rest =>
      have hpos : 0 < (succeeded samples).length := by
        rw [hsucceeded]
        exact Nat.succ_pos _
      exact (hrawRanks (hne _ hpos)).le (raw_dominated hle) (hcorrectedRanks (hne _ hpos))

end Report

end ServiceProxy.Bench
