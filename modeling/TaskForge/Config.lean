/-
The settings of a deployment, and `Config.Validate` (`internal/config/config.go`).

Durations are Go's, 64-bit and wrapping: `3 * c.HeartbeatInterval` is computed in
`int64` before it is compared. What the address, credential-chain and exporter
settings report is carried as the list of their problems, because no modelled
function reads those settings.
-/
import TaskForge.Lifecycle

namespace TaskForge

/-- `config.Config`: the sizes, the cadences and the retry policies. Durations are in
nanoseconds. -/
structure Config where
  maxRequestBytes : Int
  resultInlineThresholdBytes : Int
  apiRequestTimeout : Int64
  leaseDuration : Int64
  heartbeatInterval : Int64
  sessionStaleAfter : Int64
  leaseRenewInterval : Int64
  reconcilerPollInterval : Int64
  reconcilerBatchSize : Int
  schedulerPollInterval : Int64
  schedulerBatchSize : Int
  schedulerRenotifyAfter : Int64
  jobRetryBase : Int64
  jobRetryMax : Int64
  jobRetryMultiplier : F64
  jobRetryJitter : F64
  outboxBatchSize : Int
  outboxPollInterval : Int64
  outboxClaimTimeout : Int64
  outboxBackoffBase : Int64
  outboxBackoffMax : Int64
  outboxBackoffMultiplier : F64
  outboxBackoffJitter : F64
  /-- What the address, credential-chain and exporter settings report. -/
  addressProblems : List String

namespace Config

def millisecond : Int64 := 1000000
def second : Int64 := 1000000000

/-- One more problem when the condition does not hold. -/
def requires (ok : Bool) (problem : String) : List String := if ok then [] else [problem]

/-- A multiplier is a finite number of at least one. -/
def multiplierProblems (name : String) : F64 → List String
  | .finite x => requires (decide (1 ≤ x)) (name ++ " must be >= 1")
  | _ => [name ++ " must be a finite number"]

/-- A jitter is a finite number between zero and one. -/
def jitterProblems (name : String) : F64 → List String
  | .finite x => requires (decide (0 ≤ x) && decide (x ≤ 1)) (name ++ " must be between 0 and 1")
  | _ => [name ++ " must be a finite number"]

/-- The request limit, and the inline threshold below it. -/
def sizeProblems (c : Config) : List String :=
  requires (decide (1024 ≤ c.maxRequestBytes)) "TASKFORGE_MAX_REQUEST_BYTES must be at least 1024" ++
    if c.resultInlineThresholdBytes < 1 then
      ["TASKFORGE_RESULT_INLINE_THRESHOLD_BYTES must be positive"]
    else requires (decide (c.resultInlineThresholdBytes < c.maxRequestBytes))
      "TASKFORGE_RESULT_INLINE_THRESHOLD_BYTES must be less than TASKFORGE_MAX_REQUEST_BYTES"

/-- Leases, heartbeats and the background services. -/
def cadenceProblems (c : Config) : List String :=
  requires (decide (100 * millisecond ≤ c.apiRequestTimeout) &&
      decide (c.apiRequestTimeout ≤ 300 * second))
    "TASKFORGE_API_REQUEST_TIMEOUT must be between 100ms and 5m" ++
  requires (decide (second ≤ c.leaseDuration) && decide (c.leaseDuration ≤ 86400 * second))
    "TASKFORGE_LEASE_DURATION must be between 1s and 24h" ++
  requires (decide (0 < c.heartbeatInterval)) "TASKFORGE_HEARTBEAT_INTERVAL must be positive" ++
  requires (decide (3 * c.heartbeatInterval ≤ c.sessionStaleAfter))
    "TASKFORGE_SESSION_STALE_AFTER must be at least 3x TASKFORGE_HEARTBEAT_INTERVAL" ++
  requires (decide (0 < c.leaseRenewInterval)) "TASKFORGE_LEASE_RENEW_INTERVAL must be positive" ++
  requires (decide (3 * c.leaseRenewInterval ≤ c.leaseDuration))
    "TASKFORGE_LEASE_RENEW_INTERVAL must be at most one third of TASKFORGE_LEASE_DURATION" ++
  requires (decide (0 < c.reconcilerPollInterval))
    "TASKFORGE_RECONCILER_POLL_INTERVAL must be positive" ++
  requires (decide (1 ≤ c.reconcilerBatchSize) && decide (c.reconcilerBatchSize ≤ 1000))
    "TASKFORGE_RECONCILER_BATCH_SIZE must be between 1 and 1000" ++
  requires (decide (0 < c.schedulerPollInterval))
    "TASKFORGE_SCHEDULER_POLL_INTERVAL must be positive" ++
  requires (decide (1 ≤ c.schedulerBatchSize) && decide (c.schedulerBatchSize ≤ 1000))
    "TASKFORGE_SCHEDULER_BATCH_SIZE must be between 1 and 1000" ++
  requires (decide (3 * c.schedulerPollInterval ≤ c.schedulerRenotifyAfter))
    "TASKFORGE_SCHEDULER_RENOTIFY_AFTER must be at least 3x TASKFORGE_SCHEDULER_POLL_INTERVAL" ++
  requires (decide (c.outboxClaimTimeout ≤ c.schedulerRenotifyAfter))
    "TASKFORGE_SCHEDULER_RENOTIFY_AFTER must be >= TASKFORGE_OUTBOX_CLAIM_TIMEOUT"

/-- The retry policy of jobs. -/
def retryProblems (c : Config) : List String :=
  requires (decide (0 < c.jobRetryBase)) "TASKFORGE_JOB_RETRY_BASE must be positive" ++
  (if c.jobRetryMax < millisecond then ["TASKFORGE_JOB_RETRY_MAX must be at least 1ms"]
    else requires (c.jobRetryMax % millisecond == 0)
      "TASKFORGE_JOB_RETRY_MAX must be a whole number of milliseconds") ++
  requires (decide (c.jobRetryBase ≤ c.jobRetryMax))
    "TASKFORGE_JOB_RETRY_MAX must be >= TASKFORGE_JOB_RETRY_BASE" ++
  multiplierProblems "TASKFORGE_JOB_RETRY_MULTIPLIER" c.jobRetryMultiplier ++
  jitterProblems "TASKFORGE_JOB_RETRY_JITTER" c.jobRetryJitter

/-- The publisher. -/
def outboxProblems (c : Config) : List String :=
  requires (decide (1 ≤ c.outboxBatchSize) && decide (c.outboxBatchSize ≤ 1000))
    "TASKFORGE_OUTBOX_BATCH_SIZE must be between 1 and 1000" ++
  requires (decide (0 < c.outboxPollInterval)) "TASKFORGE_OUTBOX_POLL_INTERVAL must be positive" ++
  requires (decide (c.outboxPollInterval ≤ c.outboxClaimTimeout))
    "TASKFORGE_OUTBOX_CLAIM_TIMEOUT must be >= TASKFORGE_OUTBOX_POLL_INTERVAL" ++
  requires (decide (0 < c.outboxBackoffBase)) "TASKFORGE_OUTBOX_BACKOFF_BASE must be positive" ++
  requires (decide (c.outboxBackoffBase ≤ c.outboxBackoffMax))
    "TASKFORGE_OUTBOX_BACKOFF_MAX must be >= TASKFORGE_OUTBOX_BACKOFF_BASE" ++
  multiplierProblems "TASKFORGE_OUTBOX_BACKOFF_MULTIPLIER" c.outboxBackoffMultiplier ++
  jitterProblems "TASKFORGE_OUTBOX_BACKOFF_JITTER" c.outboxBackoffJitter

/-- `Config.Validate`: every problem at once; none is acceptance. -/
def validate (c : Config) : List String :=
  c.addressProblems ++ c.sizeProblems ++ c.cadenceProblems ++ c.retryProblems ++ c.outboxProblems

end Config

/-- What `Load` uses for the settings nobody set. -/
def defaultConfig : Config where
  maxRequestBytes := 256 * 1024
  resultInlineThresholdBytes := 64 * 1024
  apiRequestTimeout := 25 * Config.second
  leaseDuration := 30 * Config.second
  heartbeatInterval := 5 * Config.second
  sessionStaleAfter := 15 * Config.second
  leaseRenewInterval := 10 * Config.second
  reconcilerPollInterval := 2 * Config.second
  reconcilerBatchSize := 50
  schedulerPollInterval := 2 * Config.second
  schedulerBatchSize := 50
  schedulerRenotifyAfter := 60 * Config.second
  jobRetryBase := Config.second
  jobRetryMax := 300 * Config.second
  jobRetryMultiplier := .finite 2
  jobRetryJitter := .finite (1 / 5)
  outboxBatchSize := 50
  outboxPollInterval := Config.second
  outboxClaimTimeout := 30 * Config.second
  outboxBackoffBase := Config.second
  outboxBackoffMax := 300 * Config.second
  outboxBackoffMultiplier := .finite 2
  outboxBackoffJitter := .finite (1 / 5)
  addressProblems := []

theorem defaultConfig_valid : defaultConfig.validate = [] := by decide +kernel

/-! ## The margins between the cadences -/

theorem requires_eq_nil {ok : Bool} {problem : String} :
    Config.requires ok problem = [] ↔ ok = true := by
  cases ok <;> simp [Config.requires]

/-- A margin checked in 64 bits is one of integers while its product is no overflow. -/
theorem margin_iff {x y : Int64} (hx : 0 < x) (h : 3 * x ≤ y) :
    3 * x.toInt ≤ y.toInt ↔ 3 * x.toInt ≤ Int64.maxValue.toInt := by
  have hmax : Int64.maxValue.toInt = 9223372036854775807 := rfl
  have hthree : (3 : Int64).toInt = 3 := rfl
  have hpos : 0 < x.toInt := Int64.lt_iff_toInt_lt.mp hx
  have hy := y.toInt_lt
  rw [Int64.le_iff_toInt_le, Int64.toInt_mul, hthree] at h
  constructor
  · omega
  · intro hfits
    rwa [Int.bmod_eq_of_le (by omega) (by omega)] at h

/-- An accepted configuration has its three margins exactly if no product of the checks
overflows. -/
theorem margins_iff {c : Config} (h : c.validate = []) :
    (3 * c.heartbeatInterval.toInt ≤ c.sessionStaleAfter.toInt ∧
      3 * c.leaseRenewInterval.toInt ≤ c.leaseDuration.toInt ∧
      3 * c.schedulerPollInterval.toInt ≤ c.schedulerRenotifyAfter.toInt) ↔
    (3 * c.heartbeatInterval.toInt ≤ Int64.maxValue.toInt ∧
      3 * c.leaseRenewInterval.toInt ≤ Int64.maxValue.toInt ∧
      3 * c.schedulerPollInterval.toInt ≤ Int64.maxValue.toInt) := by
  simp only [Config.validate, Config.cadenceProblems, List.append_eq_nil_iff, requires_eq_nil,
    Bool.and_eq_true, decide_eq_true_eq] at h
  -- The checks, from the last to the first.
  obtain ⟨⟨⟨-, ⟨⟨hchecks, hnotify⟩, -⟩⟩, -⟩, -⟩ := h
  obtain ⟨⟨⟨⟨⟨⟨⟨⟨-, hbeat⟩, hstale⟩, hrenew⟩, hlease⟩, -⟩, -⟩, hpoll⟩, -⟩ := hchecks
  rw [margin_iff hbeat hstale, margin_iff hrenew hlease, margin_iff hpoll hnotify]

theorem margins_default :
    3 * defaultConfig.heartbeatInterval.toInt ≤ defaultConfig.sessionStaleAfter.toInt ∧
      3 * defaultConfig.leaseRenewInterval.toInt ≤ defaultConfig.leaseDuration.toInt ∧
      3 * defaultConfig.schedulerPollInterval.toInt ≤
        defaultConfig.schedulerRenotifyAfter.toInt :=
  (margins_iff defaultConfig_valid).mpr (by decide)

/-- A heartbeat every 146 years, for sessions that are stale after 15 seconds. -/
theorem slow_heartbeat_accepted :
    let c : Config := { defaultConfig with heartbeatInterval := 4611686018427387904 }
    c.validate = [] ∧ c.sessionStaleAfter.toInt < 3 * c.heartbeatInterval.toInt := by
  decide +kernel

end TaskForge
