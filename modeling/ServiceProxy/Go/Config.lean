import ServiceProxy.Config

/-!
# `config/config.go`, and what `main` makes of it

The two proxies are configured by the same variables.  `env key` is the value of a variable, as in `Config`; a value is a
Unicode text (of other bytes `os.Getenv` returns the bytes, and `env::var` an error, so that Rust takes the default).  Go takes
an empty value for one that is not set, and reads a signed number where Rust reads an unsigned one.

* `getEnvInt_eq_iff` — when the two read the same number;
* `load_agrees_iff` — **when the two proxies are configured alike**, in terms of the variables;
* `next_usable_iff` — when `Next` of the selector that `main` builds never panics.
-/

namespace ServiceProxy.Go

open ServiceProxy.Lib ServiceProxy.Upstream ServiceProxy.Upstream.Selectors

/-! ## The code -/

/-- `type Config`; a `Mode` is a text. -/
structure Config where
  listenAddr : String
  upstreamAddrs : List String
  mode : String
  lbStrategy : String
  statsAddr : String
  pprofAddr : String
  poolSizePerUpstream : ℤ
  workerPoolSize : ℤ
  workerQueueDepth : ℤ
  deriving DecidableEq, Repr

/-- `os.Getenv`. -/
def getenv (env : String → Option String) (key : String) : String := (env key).getD ""

/-- `strconv.Atoi`: digits, after an optional sign; an `int` has 64 bits. -/
def atoi : List Char → Option ℤ
  | '-' :: ds =>
    if ds ≠ [] ∧ ds.all Char.isDigit ∧ Nat.ofDigitChars 10 ds 0 ≤ 2 ^ 63 then some (-Nat.ofDigitChars 10 ds 0) else none
  | cs => (parseUnsigned (2 ^ 63) cs).map Int.ofNat

/-- `getEnv`. -/
def getEnv (env : String → Option String) (key default : String) : String :=
  if getenv env key ≠ "" then getenv env key else default

/-- `getEnvInt`. -/
def getEnvInt (env : String → Option String) (key : String) (default : ℤ) : ℤ :=
  if getenv env key ≠ "" then
    match atoi (getenv env key).toList with
    | some n => n
    | none => default
  else default

/-- `splitAddrs`; its loop appends to `addrs`. -/
def splitAddrs (s : String) : List String :=
  (s.toList.splitOn ',').foldl (fun addrs p => if trim p ≠ [] then addrs ++ [String.ofList (trim p)] else addrs) []

/-- `Load`. -/
def Config.load (env : String → Option String) : Config where
  listenAddr := getEnv env "LISTEN_ADDR" ":8080"
  upstreamAddrs := splitAddrs (getEnv env "UPSTREAM_ADDRS" (getEnv env "UPSTREAM_ADDR" "upstream:9000"))
  mode := getEnv env "PROXY_MODE" "tcp-sync"
  lbStrategy := getEnv env "LB_STRATEGY" ""
  statsAddr := getEnv env "STATS_ADDR" ""
  pprofAddr := getEnv env "PPROF_ADDR" ""
  poolSizePerUpstream := getEnvInt env "POOL_SIZE_PER_UPSTREAM" 16
  workerPoolSize := getEnvInt env "WORKER_POOL_SIZE" 64
  workerQueueDepth := getEnvInt env "WORKER_QUEUE_DEPTH" 256

/-- The way of serving that the switches of `main` and of `serveHTTP` come to. -/
def served (mode : String) : Mode :=
  if mode = "quic" then .quic
  else if mode = "http3" then .http3
  else if mode = "http2" then .http2
  else if mode = "grpc" then .grpc
  else if mode = "pooled" then .pooled
  else if mode = "tcp-goroutine" then .tcpGoroutine
  else .tcpSync

/-- `NewSelector`. -/
def newSelector (addrs : List String) (strategy : String) : SelectorKind :=
  if strategy = lbRoundRobin then .counting (Selector.new .countingRoundRobin addrs)
  else if strategy = lbLeastConn then .counting (Selector.new .leastConn addrs)
  else if strategy = lbP2c then .counting (Selector.new .p2c addrs)
  else
    match addrs with
    | [addr] => .fixed addr
    | addrs => .roundRobin (RoundRobin.new addrs)

/-- The selector that `main` builds. -/
def mainSelector (env : String → Option String) : SelectorKind :=
  newSelector (Config.load env).upstreamAddrs (Config.load env).lbStrategy

/-! ## Each field -/

variable {env : String → Option String} {key default : String}

theorem getEnv_of_none (h : env key = none) : getEnv env key default = default := by
  simp [getEnv, getenv, h]

theorem getEnv_of_some {v : String} (h : env key = some v) : getEnv env key default = if v ≠ "" then v else default := by
  simp [getEnv, getenv, h]

theorem getEnv_empty (env : String → Option String) (key : String) : getEnv env key "" = (env key).getD "" := by
  cases h : env key with
  | none => exact getEnv_of_none h
  | some v =>
    rw [getEnv_of_some h]
    split_ifs with hv
    · rfl
    · simp [not_not.1 hv]

theorem getEnv_eq_envOr_iff (hdefault : default ≠ "") :
    getEnv env key default = envOr env key default ↔ env key ≠ some "" := by
  unfold envOr
  cases h : env key with
  | none => simp [getEnv_of_none h]
  | some v =>
    rw [getEnv_of_some h, Option.getD_some]
    by_cases hv : v = ""
    · simp [hv, hdefault]
    · simp [hv]

theorem splitAddrs_eq (s : String) : splitAddrs s = ServiceProxy.splitAddrs s := by
  -- what the loop has appended, and the parts that are left
  have hloop : ∀ (ps : List (List Char)) (addrs : List String),
      ps.foldl (fun addrs p => if trim p ≠ [] then addrs ++ [String.ofList (trim p)] else addrs) addrs =
        addrs ++ ((ps.map trim).filter fun p => !p.isEmpty).map String.ofList := by
    intro ps
    induction ps with
    | nil => simp
    | cons p ps ih =>
      intro addrs
      rw [List.foldl_cons, ih, List.map_cons]
      by_cases hp : trim p = []
      · simp [hp]
      · simp [hp]
  exact hloop _ []

theorem splitAddrs_eq_nil_iff (s : String) : ServiceProxy.splitAddrs s = [] ↔ namedParts s = 0 := by
  rw [← length_splitAddrs, List.length_eq_zero_iff]

theorem served_eq (mode : String) : served mode = Mode.parse mode := by
  unfold Mode.parse
  split
  · decide
  · decide
  · decide
  · decide
  · decide
  · decide
  · simp_all [served]

theorem newSelector_eq (addrs : List String) (strategy : String) :
    newSelector addrs strategy = Upstream.newSelector addrs strategy := rfl

/-! ## Numbers -/

/-- A text that only one of the two takes for a number: one with a minus sign that an `int` holds, or one that only a `usize`
holds. -/
inductive OneReads : List Char → Prop
  | int {ds : List Char} (hne : ds ≠ []) (hdigits : ds.all Char.isDigit) (hle : Nat.ofDigitChars 10 ds 0 ≤ 2 ^ 63) :
      OneReads ('-' :: ds)
  | usize {cs : List Char} (hne : stripPlus cs ≠ []) (hdigits : (stripPlus cs).all Char.isDigit)
      (hle : 2 ^ 63 ≤ Nat.ofDigitChars 10 (stripPlus cs) 0) (hlt : Nat.ofDigitChars 10 (stripPlus cs) 0 < 2 ^ 64) : OneReads cs

theorem parseUnsigned_minus (bound : ℕ) (ds : List Char) : parseUnsigned bound ('-' :: ds) = none := by
  have hstrip : stripPlus ('-' :: ds) = '-' :: ds := rfl
  have hminus : Char.isDigit '-' = false := by decide
  simp [parseUnsigned, hstrip, hminus]

theorem atoi_getD_eq_iff {n : ℕ} (hpos : 0 < n) (hn : n < 2 ^ 63) (cs : List Char) :
    (atoi cs).getD n = ((parseUnsigned (2 ^ 64) cs).getD n : ℤ) ↔ ¬ OneReads cs := by
  unfold atoi
  split
  · next ds =>
    rw [parseUnsigned_minus, Option.getD_none]
    split_ifs with h
    · refine iff_of_false ?_ fun hnot => hnot (.int h.1 h.2.1 h.2.2)
      rw [Option.getD_some]
      omega
    · refine iff_of_true rfl ?_
      rintro (⟨hne, hdigits, hle⟩ | ⟨_, hdigits, _, _⟩)
      · exact h ⟨hne, hdigits, hle⟩
      · simp [stripPlus, show Char.isDigit '-' = false by decide] at hdigits
  · next hminus =>
    have hone : OneReads cs ↔ (stripPlus cs ≠ [] ∧ (stripPlus cs).all Char.isDigit) ∧
        2 ^ 63 ≤ Nat.ofDigitChars 10 (stripPlus cs) 0 ∧ Nat.ofDigitChars 10 (stripPlus cs) 0 < 2 ^ 64 := by
      constructor
      · rintro (_ | ⟨hne, hdigits, hle, hlt⟩)
        · exact absurd rfl (hminus _)
        · exact ⟨⟨hne, hdigits⟩, hle, hlt⟩
      · rintro ⟨⟨hne, hdigits⟩, hle, hlt⟩
        exact .usize hne hdigits hle hlt
    rw [hone]
    simp only [parseUnsigned]
    generalize Nat.ofDigitChars 10 (stripPlus cs) 0 = value
    by_cases hnumber : stripPlus cs ≠ [] ∧ (stripPlus cs).all Char.isDigit
    · simp only [hnumber, true_and, ne_eq, not_false_eq_true]
      split_ifs <;> simp <;> omega
    · have hnone : ∀ bound, ¬ (stripPlus cs ≠ [] ∧ (stripPlus cs).all Char.isDigit ∧ value < bound) :=
        fun bound h => hnumber ⟨h.1, h.2.1⟩
      rw [if_neg (hnone _), if_neg (hnone _)]
      exact iff_of_true rfl fun h => hnumber h.1

/-- **When a number is read alike.** -/
theorem getEnvInt_eq_iff {n : ℕ} (hpos : 0 < n) (hn : n < 2 ^ 63) :
    getEnvInt env key n = envInt env key n ↔ ∀ v, env key = some v → ¬ OneReads v.toList := by
  have hread : getEnvInt env key n = ((env key).bind fun v => atoi v.toList).getD n := by
    unfold getEnvInt getenv
    cases env key with
    | none => rfl
    | some v =>
      simp only [Option.getD_some, Option.bind_some]
      split_ifs with hv
      · cases atoi v.toList <;> rfl
      · rw [not_not.1 hv]
        rfl
  rw [hread, envInt]
  cases env key with
  | none => simp
  | some v =>
    rw [Option.bind_some, Option.bind_some, atoi_getD_eq_iff hpos hn]
    constructor
    · rintro h w hw
      exact Option.some.inj hw ▸ h
    · exact fun h => h v rfl

/-! ## The whole configuration -/

/-- The two `main`s are told the same, as far as both have a field for it. -/
structure Config.Agrees (g : Config) (r : ServiceProxy.Config) : Prop where
  listenAddr : g.listenAddr = r.listenAddr
  upstreamAddrs : g.upstreamAddrs = r.upstreamAddrs
  mode : served g.mode = r.mode
  lbStrategy : g.lbStrategy = r.lbStrategy
  statsAddr : g.statsAddr = r.statsAddr
  pprofAddr : g.pprofAddr = r.pprofAddr
  poolSizePerUpstream : g.poolSizePerUpstream = r.poolSizePerUpstream
  workerPoolSize : g.workerPoolSize = r.workerPoolSize
  workerQueueDepth : g.workerQueueDepth = r.workerQueueDepth

/-- The variables that hold a number. -/
def intKeys : List String := ["POOL_SIZE_PER_UPSTREAM", "WORKER_POOL_SIZE", "WORKER_QUEUE_DEPTH"]

/-- What the two languages read alike: no address is set to the empty text, unless the other variable names no upstream
either, and no number is one that only one of them reads. -/
structure ReadAlike (env : String → Option String) : Prop where
  listen : env "LISTEN_ADDR" ≠ some ""
  upstreams : env "UPSTREAM_ADDRS" = some "" → ∃ v ≠ "", env "UPSTREAM_ADDR" = some v ∧ namedParts v = 0
  upstream : env "UPSTREAM_ADDRS" = none → env "UPSTREAM_ADDR" ≠ some ""
  ints : ∀ key ∈ intKeys, ∀ v, env key = some v → ¬ OneReads v.toList

theorem namedParts_default : namedParts "upstream:9000" = 1 := by decide

/-- **When the upstreams are read alike.** -/
theorem upstreamAddrs_eq_iff :
    (Config.load env).upstreamAddrs = (ServiceProxy.Config.load env).upstreamAddrs ↔
      (env "UPSTREAM_ADDRS" = some "" → ∃ v ≠ "", env "UPSTREAM_ADDR" = some v ∧ namedParts v = 0) ∧
        (env "UPSTREAM_ADDRS" = none → env "UPSTREAM_ADDR" ≠ some "") := by
  have hdefault : ("upstream:9000" : String) ≠ "" := by decide
  have hload : (Config.load env).upstreamAddrs =
      ServiceProxy.splitAddrs (getEnv env "UPSTREAM_ADDRS" (getEnv env "UPSTREAM_ADDR" "upstream:9000")) := splitAddrs_eq _
  have hrust : (ServiceProxy.Config.load env).upstreamAddrs =
      ServiceProxy.splitAddrs (envOr env "UPSTREAM_ADDRS" (envOr env "UPSTREAM_ADDR" "upstream:9000")) := rfl
  have hempty : ServiceProxy.splitAddrs "" = [] := by decide
  rw [hload, hrust]
  cases hall : env "UPSTREAM_ADDRS" with
  | none =>
    rw [getEnv_of_none hall, envOr, hall, Option.getD_none]
    by_cases hone : env "UPSTREAM_ADDR" = some ""
    · have hgo : getEnv env "UPSTREAM_ADDR" "upstream:9000" = "upstream:9000" := by simp [getEnv_of_some hone]
      rw [hgo, envOr, hone, Option.getD_some, hempty, splitAddrs_eq_nil_iff, namedParts_default]
      simp
    · rw [(getEnv_eq_envOr_iff hdefault).2 hone]
      simp [hone]
  | some v =>
    by_cases hv : v = ""
    · -- Go goes on to the other variable, Rust has no upstream
      subst hv
      have hgo : getEnv env "UPSTREAM_ADDRS" (getEnv env "UPSTREAM_ADDR" "upstream:9000") =
          getEnv env "UPSTREAM_ADDR" "upstream:9000" := by simp [getEnv_of_some hall]
      rw [hgo, envOr, hall, Option.getD_some, hempty, splitAddrs_eq_nil_iff]
      cases hone : env "UPSTREAM_ADDR" with
      | none => simp [getEnv_of_none hone, namedParts_default]
      | some w =>
        rw [getEnv_of_some hone]
        by_cases hw : w = ""
        · simp [hw, namedParts_default]
        · simp [hw]
    · have hgo : getEnv env "UPSTREAM_ADDRS" (getEnv env "UPSTREAM_ADDR" "upstream:9000") = v := by
        simp [getEnv_of_some hall, hv]
      rw [hgo, envOr, hall, Option.getD_some]
      simp [hv]

/-- **When the two proxies are configured alike.** -/
theorem load_agrees_iff (env : String → Option String) :
    (Config.load env).Agrees (ServiceProxy.Config.load env) ↔ ReadAlike env := by
  have hlisten : (Config.load env).listenAddr = (ServiceProxy.Config.load env).listenAddr ↔ env "LISTEN_ADDR" ≠ some "" :=
    getEnv_eq_envOr_iff (by decide)
  have hpool : (Config.load env).poolSizePerUpstream = (ServiceProxy.Config.load env).poolSizePerUpstream ↔
      ∀ v, env "POOL_SIZE_PER_UPSTREAM" = some v → ¬ OneReads v.toList := getEnvInt_eq_iff (n := 16) (by decide) (by decide)
  have hworkers : (Config.load env).workerPoolSize = (ServiceProxy.Config.load env).workerPoolSize ↔
      ∀ v, env "WORKER_POOL_SIZE" = some v → ¬ OneReads v.toList := getEnvInt_eq_iff (n := 64) (by decide) (by decide)
  have hdepth : (Config.load env).workerQueueDepth = (ServiceProxy.Config.load env).workerQueueDepth ↔
      ∀ v, env "WORKER_QUEUE_DEPTH" = some v → ¬ OneReads v.toList := getEnvInt_eq_iff (n := 256) (by decide) (by decide)
  have hmode : served (Config.load env).mode = (ServiceProxy.Config.load env).mode := by
    have hgo : (Config.load env).mode = getEnv env "PROXY_MODE" "tcp-sync" := rfl
    have hrust : (ServiceProxy.Config.load env).mode = Mode.parse (envOr env "PROXY_MODE" "tcp-sync") := rfl
    rw [hgo, hrust, served_eq]
    by_cases hset : env "PROXY_MODE" = some ""
    · -- Go's default and the empty mode are the same
      rw [getEnv_of_some hset, envOr, hset]
      rfl
    · rw [(getEnv_eq_envOr_iff (by decide)).2 hset]
  constructor
  · intro h
    obtain ⟨hall, hone⟩ := upstreamAddrs_eq_iff.1 h.upstreamAddrs
    refine ⟨hlisten.1 h.listenAddr, hall, hone, fun key hkey => ?_⟩
    simp only [intKeys, List.mem_cons, List.not_mem_nil, or_false] at hkey
    rcases hkey with rfl | rfl | rfl
    · exact hpool.1 h.poolSizePerUpstream
    · exact hworkers.1 h.workerPoolSize
    · exact hdepth.1 h.workerQueueDepth
  · intro h
    exact
      { listenAddr := hlisten.2 h.listen
        upstreamAddrs := upstreamAddrs_eq_iff.2 ⟨h.upstreams, h.upstream⟩
        mode := hmode
        lbStrategy := getEnv_empty env _
        statsAddr := getEnv_empty env _
        pprofAddr := getEnv_empty env _
        poolSizePerUpstream := hpool.2 (h.ints _ (by decide))
        workerPoolSize := hworkers.2 (h.ints _ (by decide))
        workerQueueDepth := hdepth.2 (h.ints _ (by decide)) }

/-! ## When the selector is usable -/

/-- `Next` never panics, in any interleaving of calls: the token of the counting selectors is the index itself; the other
selectors are those of Rust. -/
def NeverPanics : SelectorKind → Prop
  | .counting s => ∀ total inflight counter es t, total.length = s.counters.addrs.length →
      inflight.length = s.counters.addrs.length →
      Run (step64 Int.ofNat) Any ⟨{ s with counters := { s.counters with total, inflight }, counter }, []⟩ es t →
      ∀ pc ∈ t.tasks, ¬ pc.Panics t.shared.counters
  | sel => Upstream.NeverPanics sel

theorem neverPanics_counting (kind : Kind) (addrs : List String) :
    NeverPanics (.counting (Selector.new kind addrs)) ↔ kind.needs ≤ addrs.length := by
  constructor
  · intro h
    by_contra hfew
    have hzero : (List.replicate addrs.length (0 : ℤ)).length = addrs.length := List.length_replicate
    have hrun : Run (step64 Int.ofNat) Any ⟨Selector.new kind addrs, []⟩ [.next] ⟨Selector.new kind addrs, [kind.next]⟩ :=
      .one trivial rfl
    refine h _ _ 0 _ _ hzero hzero hrun kind.next List.mem_cons_self ?_
    exact (panics_next_iff hzero kind).2 (Nat.not_le.1 hfew)
  · intro hn total inflight counter es t htotal hinflight hrun pc hpc
    exact (usable_run htotal hinflight hrun).not_panics hn hpc

/-- The two proxies need as many upstreams. -/
theorem neverPanics_iff (addrs : List String) (strategy : String) :
    NeverPanics (newSelector addrs strategy) ↔ Upstream.NeverPanics (Upstream.newSelector addrs strategy) := by
  rw [newSelector_eq]
  unfold Upstream.newSelector
  split_ifs
  · rw [neverPanics_counting, Upstream.neverPanics_counting]
  · rw [neverPanics_counting, Upstream.neverPanics_counting]
  · rw [neverPanics_counting, Upstream.neverPanics_counting]
  · split <;> rfl

def upstreamText (env : String → Option String) : String :=
  getEnv env "UPSTREAM_ADDRS" (getEnv env "UPSTREAM_ADDR" "upstream:9000")

/-- **`Next` of the selector never panics exactly if an upstream is named**, and two of them if `LB_STRATEGY` is `p2c`. -/
theorem next_usable_iff (env : String → Option String) :
    NeverPanics (mainSelector env) ↔
      1 ≤ namedParts (upstreamText env) ∧ (env "LB_STRATEGY" = some "p2c" → 2 ≤ namedParts (upstreamText env)) := by
  have hlen : (Config.load env).upstreamAddrs.length = namedParts (upstreamText env) := by
    rw [← length_splitAddrs, ← splitAddrs_eq]
    rfl
  have hp2c : (Config.load env).lbStrategy = lbP2c ↔ env "LB_STRATEGY" = some "p2c" := by
    have hload : (Config.load env).lbStrategy = (env "LB_STRATEGY").getD "" := getEnv_empty env _
    rw [hload, lbP2c]
    cases env "LB_STRATEGY" with
    | none => simp
    | some v => simp
  rw [mainSelector, neverPanics_iff, neverPanics_newSelector, hlen, hp2c]

end ServiceProxy.Go
