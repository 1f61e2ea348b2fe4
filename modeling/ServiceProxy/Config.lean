import ServiceProxy.Lib.Text
import ServiceProxy.Upstream.NewSelector

/-!
# `config.rs`, and the selector that `main` builds from it

`env key` is what `env::var(key)` returns: nothing if the variable is not set (or is not Unicode).  A variable that is set to
the empty text is set.

* `length_splitAddrs` — `split_addrs` keeps the parts between the commas that are not all white space;
* `selector_usable_iff` — **when `next` of the selector never panics**, in terms of the variables.
-/

namespace ServiceProxy

open ServiceProxy.Lib ServiceProxy.Upstream

/-! ## The code -/

inductive Mode
  | tcpSync | tcpGoroutine | http2 | grpc | pooled | quic | http3
  deriving DecidableEq, Repr

/-- `Mode::parse`. -/
def Mode.parse (s : String) : Mode :=
  match s with
  | "tcp-goroutine" => .tcpGoroutine
  | "http2" => .http2
  | "grpc" => .grpc
  | "pooled" => .pooled
  | "quic" => .quic
  | "http3" => .http3
  | _ => .tcpSync

/-- `struct Config`. -/
structure Config where
  listenAddr : String
  upstreamAddrs : List String
  mode : Mode
  lbStrategy : String
  statsAddr : String
  pprofAddr : String
  tokioMetricsAddr : String
  poolSizePerUpstream : ℕ
  workerPoolSize : ℕ
  workerQueueDepth : ℕ
  deriving DecidableEq, Repr

/-- `env_or`. -/
def envOr (env : String → Option String) (key default : String) : String := (env key).getD default

/-- `env_int`; a `usize` has 64 bits. -/
def envInt (env : String → Option String) (key : String) (default : ℕ) : ℕ :=
  ((env key).bind fun v => parseUnsigned (2 ^ 64) v.toList).getD default

/-- `split_addrs`. -/
def splitAddrs (s : String) : List String :=
  (((s.toList.splitOn ',').map trim).filter fun p => !p.isEmpty).map String.ofList

/-- `Config::load`. -/
def Config.load (env : String → Option String) : Config where
  listenAddr := envOr env "LISTEN_ADDR" ":8080"
  upstreamAddrs := splitAddrs (envOr env "UPSTREAM_ADDRS" (envOr env "UPSTREAM_ADDR" "upstream:9000"))
  mode := Mode.parse (envOr env "PROXY_MODE" "tcp-sync")
  lbStrategy := (env "LB_STRATEGY").getD ""
  statsAddr := (env "STATS_ADDR").getD ""
  pprofAddr := (env "PPROF_ADDR").getD ""
  tokioMetricsAddr := (env "TOKIO_METRICS_ADDR").getD ""
  poolSizePerUpstream := envInt env "POOL_SIZE_PER_UPSTREAM" 16
  workerPoolSize := envInt env "WORKER_POOL_SIZE" 64
  workerQueueDepth := envInt env "WORKER_QUEUE_DEPTH" 256

/-- The selector that `main` builds. -/
def mainSelector (env : String → Option String) : SelectorKind :=
  newSelector (Config.load env).upstreamAddrs (Config.load env).lbStrategy

/-! ## How many upstreams there are -/

/-- How many of the parts between the commas of a text are not all white space. -/
def namedParts (s : String) : ℕ := (s.toList.splitOn ',').countP fun p => !p.all isWhitespace

theorem length_splitAddrs (s : String) : (splitAddrs s).length = namedParts s := by
  rw [splitAddrs, List.length_map, ← List.countP_eq_length_filter, List.countP_map, namedParts]
  refine List.countP_congr fun p _ => ?_
  have htrim : (trim p).isEmpty = p.all isWhitespace := by
    rw [Bool.eq_iff_iff, List.isEmpty_iff, trim_eq_nil_iff, List.all_eq_true]
  rw [Function.comp_apply, htrim]

/-! ## When the selector is usable -/

/-- The text that names the upstreams. -/
def upstreamText (env : String → Option String) : String :=
  (env "UPSTREAM_ADDRS").getD ((env "UPSTREAM_ADDR").getD "upstream:9000")

/-- **`next` of the selector never panics exactly if an upstream is named**, and two of them if `LB_STRATEGY` is `p2c`. -/
theorem selector_usable_iff (env : String → Option String) :
    NeverPanics (mainSelector env) ↔
      1 ≤ namedParts (upstreamText env) ∧ (env "LB_STRATEGY" = some "p2c" → 2 ≤ namedParts (upstreamText env)) := by
  have hlen : (Config.load env).upstreamAddrs.length = namedParts (upstreamText env) := length_splitAddrs _
  have hp2c : (Config.load env).lbStrategy = lbP2c ↔ env "LB_STRATEGY" = some "p2c" := by
    have hload : (Config.load env).lbStrategy = (env "LB_STRATEGY").getD "" := rfl
    rw [hload, lbP2c]
    cases env "LB_STRATEGY" with
    | none => simp
    | some v => simp
  rw [mainSelector, neverPanics_newSelector, hlen, hp2c]

/-- Only `LB_STRATEGY` is set. -/
def onlyP2c (key : String) : Option String := if key = "LB_STRATEGY" then some "p2c" else none

/-- **The counter-example.**  `p2c` over the one upstream of the default: the second draw of the first call is from an empty
range. -/
theorem p2c_default_panics : ¬ ∀ env : String → Option String, NeverPanics (mainSelector env) := by
  intro h
  have hsel : mainSelector onlyP2c = newSelector ["upstream:9000"] lbP2c := by decide
  have hpanics := h onlyP2c
  rw [hsel, neverPanics_newSelector] at hpanics
  exact absurd (hpanics.2 rfl) (by decide)

end ServiceProxy
