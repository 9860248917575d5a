/-
The database schema: what the migrations declare, after the last of them.

One structure per table, one Boolean per named `CHECK`, and the unique keys. A
table of the database is a `Relational.Table` over its constraints, so a row
that breaks a `CHECK` or a unique index is in no database: this is where the
schema is enforced and nowhere else.

Instants are what `TIMESTAMPTZ` stores, microseconds since the epoch, as `Int`;
a Go `time.Duration` is its nanoseconds, as `Int`. A nullable column is an
`Option`. An enumerated `TEXT` column is an inductive type, which is its
`CHECK (… IN (…))`; the two columns the service fills with a caller's word
(`failure_class`, `results.location`) keep a case for a word outside the list,
so that the `CHECK` has something to refuse.
-/
import TaskForge.Json.Basic
import TaskForge.Table
import TaskForge.Text

open Relational

namespace TaskForge

/-! ## Columns -/

/-- `uuid.UUID` -/
abbrev UUID := BitVec 128

instance : LawfulBEq UUID := inferInstance

theorem uuid_injective : Function.Injective (BitVec.toNat : UUID → ℕ) :=
  fun _ _ => BitVec.eq_of_toNat_eq

/-- `uuid.Nil` -/
def uuidNil : UUID := 0

/-- `jobs.Status` -/
inductive JobStatus where
  | pending | queued | leased | running | retryWait
  | cancelRequested | succeeded | canceled | deadLettered
deriving DecidableEq, Repr

/-- `workers.AttemptStatus` -/
inductive AttemptStatus where
  | leased | running | succeeded | failed | timedOut | canceled | abandoned
deriving DecidableEq, Repr

/-- `workers.LeaseStatus` -/
inductive LeaseStatus where
  | active | completed | expired | released
deriving DecidableEq, Repr

/-- `workers.SessionStatus` -/
inductive SessionStatus where
  | starting | healthy | draining | unhealthy | offline
deriving DecidableEq, Repr

/-- `lifecycle.FailureClass`: the recognized classes, and any other word. -/
inductive FailureClass where
  | retryable | permanent | timedOut | canceled | abandoned
  | other (word : String)
deriving DecidableEq, Repr

/-- `lifecycle.DLQReason` -/
inductive DLQReason where
  | permanentFailure | attemptsExhausted
deriving DecidableEq, Repr

/-- `results.Location` -/
inductive Location where
  | inline | object
  | other (word : String)
deriving DecidableEq, Repr

/-- `outbox_events.status` -/
inductive EventStatus where
  | pending | published
deriving DecidableEq, Repr

/-- `Status.Terminal` -/
def JobStatus.terminal : JobStatus → Bool
  | .succeeded | .canceled | .deadLettered => true
  | _ => false

/-- `isExecutingJobStatus` -/
def isExecutingJobStatus (s : JobStatus) : Bool := s == .leased || s == .running

/-- `isExecutingAttemptStatus` -/
def isExecutingAttemptStatus (s : AttemptStatus) : Bool := s == .leased || s == .running

/-- `isCurrentSessionStatus` -/
def isCurrentSessionStatus (s : SessionStatus) : Bool :=
  s == .starting || s == .healthy || s == .draining

/-- `length(scope) BETWEEN 1 AND 128` -/
def scopeBounded (s : String) : Bool := lengthBetween 1 128 s

/-- `x BETWEEN lo AND hi` -/
def between (lo hi x : Int) : Bool := decide (lo ≤ x) && decide (x ≤ hi)

/-! ## Queues, workers and sessions -/

/-- `queues` -/
structure Queue where
  name : String
  maxConcurrency : Int
  workerGroup : String
deriving DecidableEq, Repr

def queues : Constraints Queue where
  check q := matchesName 63 q.name && decide (0 < q.maxConcurrency) && matchesName 63 q.workerGroup
  clash := sameKey fun q => some q.name
  clash_symm := sameKey_comm _
  clash_refl a := sameKey_self _ a rfl

/-- `workers` -/
structure Worker where
  id : UUID
  scope : String
  name : String
  createdAt : Int
  updatedAt : Int
deriving DecidableEq, Repr

def Worker.idKey (w : Worker) : Option UUID := some w.id
def Worker.nameKey (w : Worker) : Option (String × String) := some (w.scope, w.name)

def workers : Constraints Worker where
  check w := scopeBounded w.scope && matchesName 127 w.name
  clash a b := sameKey Worker.idKey a b || sameKey Worker.nameKey a b
  clash_symm a b := by rw [sameKey_comm _ a, sameKey_comm _ a]
  clash_refl _ := by rw [sameKey_self Worker.idKey _ rfl, Bool.true_or]

/-- `worker_sessions` -/
structure WorkerSession where
  id : UUID
  workerID : UUID
  scope : String
  hostname : String
  workerGroup : String
  concurrencyLimit : Int
  capabilities : List String
  supportedJobTypes : List String
  status : SessionStatus
  registeredAt : Int
  lastHeartbeatAt : Int
  endedAt : Option Int
  workerKeyID : Option UUID
deriving DecidableEq, Repr

namespace WorkerSession

/-- `worker_sessions_timeline_order` -/
def timelineOrder (s : WorkerSession) : Bool :=
  decide (s.registeredAt ≤ s.lastHeartbeatAt) &&
    s.endedAt.all fun ended => decide (s.registeredAt ≤ ended)

def check (s : WorkerSession) : Bool :=
  scopeBounded s.scope && lengthBetween 1 255 s.hostname && matchesName 63 s.workerGroup &&
    between 1 256 s.concurrencyLimit && decide (s.capabilities.length ≤ 64) &&
    decide (1 ≤ s.supportedJobTypes.length) && decide (s.supportedJobTypes.length ≤ 64) &&
    s.capabilities.all storable && s.supportedJobTypes.all storable && s.timelineOrder

def idKey (s : WorkerSession) : Option UUID := some s.id

/-- `worker_sessions_one_current_per_worker_idx` -/
def currentKey (s : WorkerSession) : Option UUID :=
  if isCurrentSessionStatus s.status then some s.workerID else none

end WorkerSession

def workerSessions : Constraints WorkerSession where
  check := WorkerSession.check
  clash a b := sameKey WorkerSession.idKey a b || sameKey WorkerSession.currentKey a b
  clash_symm a b := by rw [sameKey_comm _ a, sameKey_comm _ a]
  clash_refl _ := by rw [sameKey_self WorkerSession.idKey _ rfl, Bool.true_or]

/-! ## Jobs -/

/-- `jobs`. The payload is the canonical JSON text the submission stored. -/
structure Job where
  id : UUID
  scope : String
  queue : String
  jobType : String
  payload : String
  status : JobStatus
  priority : Int
  maxAttempts : Int
  timeoutSeconds : Int
  requiredCapabilities : List String
  scheduledAt : Option Int
  availableAt : Int
  cancelRequestedAt : Option Int
  replayedFromJobID : Option UUID
  notificationGeneration : ℕ
  lastNotificationAt : Option Int
  createdAt : Int
  updatedAt : Int
deriving DecidableEq, Repr

namespace Job

/-- `jsonb_typeof(payload) = 'object'`, read off the canonical text. -/
def payloadIsObject (j : Job) : Bool := j.payload.toList.head? == some '\x7b'

/-- `jobs_replay_is_not_self` -/
def replayIsNotSelf (j : Job) : Bool := j.replayedFromJobID != some j.id

/-- `jobs_pending_requires_schedule` -/
def pendingRequiresSchedule (j : Job) : Bool := j.status != .pending || j.scheduledAt.isSome

/-- `jobs_cancellation_consistent` -/
def cancellationConsistent (j : Job) : Bool :=
  j.cancelRequestedAt.isSome == (j.status == .cancelRequested || j.status == .canceled)

/-- `jobs_notification_generation_consistent` -/
def notificationGenerationConsistent (j : Job) : Bool :=
  j.lastNotificationAt.isSome == decide (0 < j.notificationGeneration)

def check (j : Job) : Bool :=
  scopeBounded j.scope && matchesName 127 j.jobType && j.payloadIsObject &&
    between 0 100 j.priority && between 1 100 j.maxAttempts && between 1 86400 j.timeoutSeconds &&
    j.requiredCapabilities.all storable && j.replayIsNotSelf && j.pendingRequiresSchedule &&
    j.cancellationConsistent && j.notificationGenerationConsistent

def idKey (j : Job) : Option UUID := some j.id

end Job

def jobs : Constraints Job where
  check := Job.check
  clash := sameKey Job.idKey
  clash_symm := sameKey_comm _
  clash_refl a := sameKey_self _ a rfl

/-! ## Attempts -/

/-- `job_attempts` -/
structure JobAttempt where
  id : UUID
  jobID : UUID
  scope : String
  queue : String
  attemptNumber : ℕ
  workerID : UUID
  workerSessionID : UUID
  status : AttemptStatus
  startedAt : Option Int
  finishedAt : Option Int
  timeoutAt : Option Int
  outcomeRequestID : Option UUID
  failureClass : Option FailureClass
  errorCode : Option String
  errorMessage : Option String
  retryDelayMs : Option Int
  retryAt : Option Int
  createdAt : Int
deriving DecidableEq, Repr

namespace JobAttempt

/-- `job_attempts_times_consistent`, as migration 0009 left it. -/
def timesConsistent (a : JobAttempt) : Bool :=
  match a.status with
  | .leased => a.startedAt.isNone && a.finishedAt.isNone
  | .running => a.startedAt.isSome && a.finishedAt.isNone
  | .succeeded | .failed | .timedOut => a.startedAt.isSome && a.finishedAt.isSome
  | .canceled | .abandoned => a.finishedAt.isSome

/-- `job_attempts_timeline_order` -/
def timelineOrder (a : JobAttempt) : Bool :=
  (a.startedAt.all fun started => decide (a.createdAt ≤ started)) &&
    a.finishedAt.all fun finished => a.startedAt.all fun started => decide (started ≤ finished)

/-- `job_attempts_failure_class_valid` -/
def failureClassValid (a : JobAttempt) : Bool :=
  match a.failureClass with
  | some (.other _) => false
  | _ => true

/-- `job_attempts_error_code_bounded` -/
def errorCodeBounded (a : JobAttempt) : Bool := a.errorCode.all (matchesName 63)

/-- `job_attempts_error_message_bounded` -/
def errorMessageBounded (a : JobAttempt) : Bool :=
  a.errorMessage.all fun m =>
    storable m && decide (octetLength m ≤ 512) && !m.toList.any isControl

/-- `job_attempts_retry_decision_consistent` -/
def retryDecisionConsistent (a : JobAttempt) : Bool :=
  a.retryDelayMs.isSome == a.retryAt.isSome && a.retryDelayMs.all fun ms => decide (0 ≤ ms)

/-- `job_attempts_timeout_after_start` -/
def timeoutAfterStart (a : JobAttempt) : Bool :=
  a.timeoutAt.all fun timeout => a.startedAt.any fun started => decide (started < timeout)

def check (a : JobAttempt) : Bool :=
  scopeBounded a.scope && decide (0 < a.attemptNumber) && a.timesConsistent && a.timelineOrder &&
    a.failureClassValid && a.errorCodeBounded && a.errorMessageBounded &&
    a.retryDecisionConsistent && a.timeoutAfterStart

def idKey (a : JobAttempt) : Option UUID := some a.id
def numberKey (a : JobAttempt) : Option (UUID × ℕ) := some (a.jobID, a.attemptNumber)

end JobAttempt

def jobAttempts : Constraints JobAttempt where
  check := JobAttempt.check
  clash a b := sameKey JobAttempt.idKey a b || sameKey JobAttempt.numberKey a b ||
    sameKey JobAttempt.outcomeRequestID a b
  clash_symm a b := by rw [sameKey_comm _ a, sameKey_comm _ a, sameKey_comm _ a]
  clash_refl _ := by rw [sameKey_self JobAttempt.idKey _ rfl, Bool.true_or, Bool.true_or]

/-! ## Leases -/

/-- `leases` -/
structure Lease where
  id : UUID
  jobID : UUID
  attemptID : UUID
  scope : String
  queue : String
  workerID : UUID
  workerSessionID : UUID
  claimRequestID : UUID
  status : LeaseStatus
  acquiredAt : Int
  expiresAt : Int
  renewedAt : Int
  releasedAt : Option Int
  renewalVersion : ℕ
  lastRenewalRequestID : Option UUID
deriving DecidableEq, Repr

namespace Lease

/-- `leases_expiry_after_acquisition` and `leases_timeline_order` -/
def timelineOrder (l : Lease) : Bool :=
  decide (l.acquiredAt < l.expiresAt) && decide (l.acquiredAt ≤ l.renewedAt) &&
    decide (l.renewedAt < l.expiresAt) && l.releasedAt.all fun t => decide (l.acquiredAt ≤ t)

/-- `leases_release_consistent` -/
def releaseConsistent (l : Lease) : Bool := l.releasedAt.isSome == (l.status != .active)

/-- `leases_renewal_identity_consistent` -/
def renewalIdentityConsistent (l : Lease) : Bool :=
  l.lastRenewalRequestID.isSome == decide (0 < l.renewalVersion)

def check (l : Lease) : Bool :=
  scopeBounded l.scope && l.timelineOrder && l.releaseConsistent && l.renewalIdentityConsistent

def idKey (l : Lease) : Option UUID := some l.id
def attemptKey (l : Lease) : Option UUID := some l.attemptID
def claimKey (l : Lease) : Option UUID := some l.claimRequestID

/-- `leases_one_active_per_job_idx` -/
def activeKey (l : Lease) : Option UUID := if l.status = .active then some l.jobID else none

end Lease

def leases : Constraints Lease where
  check := Lease.check
  clash a b := sameKey Lease.idKey a b || sameKey Lease.attemptKey a b ||
    sameKey Lease.claimKey a b || sameKey Lease.activeKey a b ||
    sameKey Lease.lastRenewalRequestID a b
  clash_symm a b := by
    rw [sameKey_comm _ a, sameKey_comm _ a, sameKey_comm _ a, sameKey_comm _ a, sameKey_comm _ a]
  clash_refl _ := by
    rw [sameKey_self Lease.idKey _ rfl, Bool.true_or, Bool.true_or, Bool.true_or, Bool.true_or]

/-! ## Dead letters, replays and results -/

/-- `dlq_entries` -/
structure DLQEntry where
  id : UUID
  scope : String
  queue : String
  jobID : UUID
  terminalAttemptID : Option UUID
  reason : DLQReason
  createdAt : Int
deriving DecidableEq, Repr

def DLQEntry.idKey (d : DLQEntry) : Option UUID := some d.id
def DLQEntry.jobKey (d : DLQEntry) : Option UUID := some d.jobID

def dlqEntries : Constraints DLQEntry where
  check d := scopeBounded d.scope
  clash a b := sameKey DLQEntry.idKey a b || sameKey DLQEntry.jobKey a b
  clash_symm a b := by rw [sameKey_comm _ a, sameKey_comm _ a]
  clash_refl _ := by rw [sameKey_self DLQEntry.idKey _ rfl, Bool.true_or]

/-- `dlq_replays` -/
structure DLQReplay where
  scope : String
  originalJobID : UUID
  idempotencyKey : String
  replacementJobID : UUID
  createdAt : Int
deriving DecidableEq, Repr

def DLQReplay.identity (r : DLQReplay) : Option (String × UUID × String) :=
  some (r.scope, r.originalJobID, r.idempotencyKey)
def DLQReplay.replacementKey (r : DLQReplay) : Option UUID := some r.replacementJobID

def dlqReplays : Constraints DLQReplay where
  check r := scopeBounded r.scope && lengthBetween 1 255 r.idempotencyKey &&
    r.replacementJobID != r.originalJobID
  clash a b := sameKey DLQReplay.identity a b || sameKey DLQReplay.replacementKey a b
  clash_symm a b := by rw [sameKey_comm _ a, sameKey_comm _ a]
  clash_refl _ := by rw [sameKey_self DLQReplay.identity _ rfl, Bool.true_or]

/-- `results` -/
structure ResultRow where
  jobID : UUID
  attemptID : UUID
  scope : String
  location : Location
  inlineBody : Option String
  objectBucket : Option String
  objectKey : Option String
  sizeBytes : Int
  checksumSHA256 : Option String
  contentType : String
  createdAt : Int
deriving DecidableEq, Repr

namespace ResultRow

/-- `results_location_shape` -/
def locationShape (r : ResultRow) : Bool :=
  match r.location with
  | .inline => r.inlineBody.isSome && r.objectBucket.isNone && r.objectKey.isNone &&
      r.checksumSHA256.isNone
  | .object => r.inlineBody.isNone && r.objectBucket.isSome && r.objectKey.isSome &&
      r.checksumSHA256.isSome
  | .other _ => false

/-- The table's `CHECK` constraints. -/
def constraints (r : ResultRow) : Bool :=
  scopeBounded r.scope && (r.location == .inline || r.location == .object) &&
    decide (0 ≤ r.sizeBytes) && r.checksumSHA256.all matchesHex64 && r.locationShape

/-- The constraints, and the types of the columns that a report fills: a `JSONB` is a
document PostgreSQL takes, and a `TEXT` has no NUL. -/
def check (r : ResultRow) : Bool :=
  r.constraints && (r.inlineBody.all fun body => Json.jsonbTakes body.toList) &&
    r.objectBucket.all storable && r.objectKey.all storable

def jobKey (r : ResultRow) : Option UUID := some r.jobID

end ResultRow

def results : Constraints ResultRow where
  check := ResultRow.check
  clash := sameKey ResultRow.jobKey
  clash_symm := sameKey_comm _
  clash_refl a := sameKey_self _ a rfl

/-! ## Submissions and notifications -/

/-- `idempotency_records` -/
structure IdempotencyRecord where
  scope : String
  idempotencyKey : String
  requestFingerprint : String
  jobID : UUID
  createdAt : Int
deriving DecidableEq, Repr

def IdempotencyRecord.identity (r : IdempotencyRecord) : Option (String × String) :=
  some (r.scope, r.idempotencyKey)

def idempotencyRecords : Constraints IdempotencyRecord where
  check r := storable r.scope && lengthBetween 1 255 r.idempotencyKey &&
    matchesHex64 r.requestFingerprint
  clash := sameKey IdempotencyRecord.identity
  clash_symm := sameKey_comm _
  clash_refl a := sameKey_self _ a rfl

/-- `outbox.WorkAvailableData`, the JSON object in `outbox_events.payload`. -/
structure WorkAvailableData where
  queue : String
  jobID : UUID
deriving DecidableEq, Repr

/-- `outbox_events` -/
structure OutboxEvent where
  id : UUID
  eventType : String
  schemaVersion : Int
  payload : WorkAvailableData
  status : EventStatus
  attempts : ℕ
  availableAt : Int
  claimedAt : Option Int
  publishedAt : Option Int
  lastError : Option String
  createdAt : Int
  jobID : Option UUID
  notificationGeneration : Option ℕ
  traceparent : Option String
  tracestate : Option String
deriving DecidableEq, Repr

namespace OutboxEvent

/-- `outbox_published_at_consistent` -/
def publishedAtConsistent (e : OutboxEvent) : Bool :=
  e.publishedAt.isSome == (e.status == .published)

/-- `outbox_events_notification_metadata_paired`, as migration 0011 left it. -/
def notificationMetadataPaired (e : OutboxEvent) : Bool :=
  e.jobID.isSome == e.notificationGeneration.isSome &&
    e.notificationGeneration.all fun g => decide (1 ≤ g)

def check (e : OutboxEvent) : Bool :=
  lengthBetween 1 64 e.eventType && decide (1 ≤ e.schemaVersion) && e.publishedAtConsistent &&
    e.notificationMetadataPaired && e.traceparent.all matchesTraceparent &&
    e.tracestate.all (lengthBetween 0 512)

def idKey (e : OutboxEvent) : Option UUID := some e.id

end OutboxEvent

def outboxEvents : Constraints OutboxEvent where
  check := OutboxEvent.check
  clash := sameKey OutboxEvent.idKey
  clash_symm := sameKey_comm _
  clash_refl a := sameKey_self _ a rfl

/-! ## The checks, opened -/

/-- The checks of `worker_sessions`, one by one. -/
structure WorkerSession.Checked (s : WorkerSession) : Prop where
  scope : scopeBounded s.scope = true
  hostname : lengthBetween 1 255 s.hostname = true
  workerGroup : matchesName 63 s.workerGroup = true
  concurrencyLimit : between 1 256 s.concurrencyLimit = true
  capabilities : s.capabilities.length ≤ 64 ∧ s.capabilities.all storable = true
  jobTypes : 1 ≤ s.supportedJobTypes.length ∧ s.supportedJobTypes.length ≤ 64 ∧
    s.supportedJobTypes.all storable = true
  heartbeat : s.registeredAt ≤ s.lastHeartbeatAt
  ended : ∀ t, s.endedAt = some t → s.registeredAt ≤ t

theorem WorkerSession.check_eq_true {s : WorkerSession} : s.check = true ↔ s.Checked := by
  simp only [WorkerSession.check, WorkerSession.timelineOrder, Bool.and_eq_true,
    decide_eq_true_eq, Option.all_eq_true]
  constructor
  · rintro ⟨⟨⟨⟨⟨⟨⟨⟨⟨h₁, h₂⟩, h₃⟩, h₄⟩, h₅⟩, h₆⟩, h₇⟩, h₈⟩, h₉⟩, h₁₀, h₁₁⟩
    exact ⟨h₁, h₂, h₃, h₄, ⟨h₅, h₈⟩, ⟨h₆, h₇, h₉⟩, h₁₀, h₁₁⟩
  · rintro ⟨h₁, h₂, h₃, h₄, ⟨h₅, h₈⟩, ⟨h₆, h₇, h₉⟩, h₁₀, h₁₁⟩
    exact ⟨⟨⟨⟨⟨⟨⟨⟨⟨h₁, h₂⟩, h₃⟩, h₄⟩, h₅⟩, h₆⟩, h₇⟩, h₈⟩, h₉⟩, h₁₀, h₁₁⟩

/-- The checks of `jobs`, one by one. -/
structure Job.Checked (j : Job) : Prop where
  scope : scopeBounded j.scope = true
  jobType : matchesName 127 j.jobType = true
  payload : j.payloadIsObject = true
  priority : between 0 100 j.priority = true
  maxAttempts : 1 ≤ j.maxAttempts ∧ j.maxAttempts ≤ 100
  timeoutSeconds : 1 ≤ j.timeoutSeconds ∧ j.timeoutSeconds ≤ 86400
  capabilities : j.requiredCapabilities.all storable = true
  replay : j.replayIsNotSelf = true
  pending : j.pendingRequiresSchedule = true
  cancellation : j.cancellationConsistent = true
  generation : j.notificationGenerationConsistent = true

theorem Job.check_eq_true {j : Job} : j.check = true ↔ j.Checked := by
  simp only [Job.check, Bool.and_eq_true, between, decide_eq_true_eq]
  constructor
  · rintro ⟨⟨⟨⟨⟨⟨⟨⟨⟨⟨h₁, h₂⟩, h₃⟩, h₄⟩, h₅⟩, h₆⟩, h₇⟩, h₈⟩, h₉⟩, h₁₀⟩, h₁₁⟩
    exact ⟨h₁, h₂, h₃, by simpa [between] using h₄, h₅, h₆, h₇, h₈, h₉, h₁₀, h₁₁⟩
  · rintro ⟨h₁, h₂, h₃, h₄, h₅, h₆, h₇, h₈, h₉, h₁₀, h₁₁⟩
    exact ⟨⟨⟨⟨⟨⟨⟨⟨⟨⟨h₁, h₂⟩, h₃⟩, by simpa [between] using h₄⟩, h₅⟩, h₆⟩, h₇⟩, h₈⟩, h₉⟩, h₁₀⟩, h₁₁⟩

/-- The checks of `job_attempts`, one by one. -/
structure JobAttempt.Checked (a : JobAttempt) : Prop where
  scope : scopeBounded a.scope = true
  number : 0 < a.attemptNumber
  times : a.timesConsistent = true
  timeline : a.timelineOrder = true
  failureClass : a.failureClassValid = true
  errorCode : a.errorCodeBounded = true
  errorMessage : a.errorMessageBounded = true
  retry : a.retryDecisionConsistent = true
  timeout : a.timeoutAfterStart = true

theorem JobAttempt.check_eq_true {a : JobAttempt} : a.check = true ↔ a.Checked := by
  simp only [JobAttempt.check, Bool.and_eq_true, decide_eq_true_eq]
  constructor
  · rintro ⟨⟨⟨⟨⟨⟨⟨⟨h₁, h₂⟩, h₃⟩, h₄⟩, h₅⟩, h₆⟩, h₇⟩, h₈⟩, h₉⟩
    exact ⟨h₁, h₂, h₃, h₄, h₅, h₆, h₇, h₈, h₉⟩
  · rintro ⟨h₁, h₂, h₃, h₄, h₅, h₆, h₇, h₈, h₉⟩
    exact ⟨⟨⟨⟨⟨⟨⟨⟨h₁, h₂⟩, h₃⟩, h₄⟩, h₅⟩, h₆⟩, h₇⟩, h₈⟩, h₉⟩

/-- The checks of `leases`, one by one. -/
structure Lease.Checked (l : Lease) : Prop where
  scope : scopeBounded l.scope = true
  expiry : l.acquiredAt < l.expiresAt
  renewed : l.acquiredAt ≤ l.renewedAt ∧ l.renewedAt < l.expiresAt
  released : ∀ t, l.releasedAt = some t → l.acquiredAt ≤ t
  release : l.releasedAt.isSome = (l.status != .active)
  renewal : l.lastRenewalRequestID.isSome = decide (0 < l.renewalVersion)

theorem Lease.check_eq_true {l : Lease} : l.check = true ↔ l.Checked := by
  simp only [Lease.check, Lease.timelineOrder, Lease.releaseConsistent,
    Lease.renewalIdentityConsistent, Bool.and_eq_true, decide_eq_true_eq, beq_iff_eq,
    Option.all_eq_true]
  constructor
  · rintro ⟨⟨⟨h₁, ⟨⟨h₂, h₃⟩, h₄⟩, h₅⟩, h₆⟩, h₇⟩
    exact ⟨h₁, h₂, ⟨h₃, h₄⟩, h₅, h₆, h₇⟩
  · rintro ⟨h₁, h₂, ⟨h₃, h₄⟩, h₅, h₆, h₇⟩
    exact ⟨⟨⟨h₁, ⟨⟨h₂, h₃⟩, h₄⟩, h₅⟩, h₆⟩, h₇⟩

/-! ## The database -/

/-- The tables the store transactions read and write. -/
structure DB where
  queues : Table queues
  workers : Table workers
  sessions : Table workerSessions
  jobs : Table jobs
  attempts : Table jobAttempts
  leases : Table leases
  outbox : Table outboxEvents
  idempotency : Table idempotencyRecords
  dlqEntries : Table dlqEntries
  dlqReplays : Table dlqReplays
  results : Table results
deriving DecidableEq

/-- The tables by name, to say which one refused a statement. -/
inductive TableName where
  | workers | workerSessions | jobs | jobAttempts | leases | outboxEvents
  | idempotencyRecords | dlqEntries | dlqReplays | results
deriving DecidableEq, Repr

/-! ## Rows named by a unique key, and their checks -/

namespace DB

variable (db : DB)
variable {s t : WorkerSession} {j : Job} {a b : JobAttempt} {l m : Lease}

theorem session_checked (hs : s ∈ db.sessions.rows) : s.Checked :=
  WorkerSession.check_eq_true.mp (db.sessions.checked s hs)

theorem job_checked (hj : j ∈ db.jobs.rows) : j.Checked :=
  Job.check_eq_true.mp (db.jobs.checked j hj)

theorem attempt_checked (ha : a ∈ db.attempts.rows) : a.Checked :=
  JobAttempt.check_eq_true.mp (db.attempts.checked a ha)

theorem lease_checked (hl : l ∈ db.leases.rows) : l.Checked :=
  Lease.check_eq_true.mp (db.leases.checked l hl)

theorem queue_eq_of_name {p q : Queue} (hp : p ∈ db.queues.rows) (hq : q ∈ db.queues.rows)
    (h : p.name = q.name) : p = q :=
  db.queues.eq_of_clash hp hq (sameKey_eq_true.mpr ⟨p.name, rfl, congrArg some h.symm⟩)

theorem worker_eq_of_id {x y : Worker} (hx : x ∈ db.workers.rows) (hy : y ∈ db.workers.rows)
    (h : x.id = y.id) : x = y := by
  refine db.workers.eq_of_clash hx hy ?_
  exact Bool.or_eq_true_iff.mpr (.inl (sameKey_eq_true.mpr ⟨x.id, rfl, congrArg some h.symm⟩))

theorem session_eq_of_id (hs : s ∈ db.sessions.rows) (ht : t ∈ db.sessions.rows) (h : s.id = t.id) :
    s = t := by
  refine db.sessions.eq_of_clash hs ht ?_
  exact Bool.or_eq_true_iff.mpr (.inl (sameKey_eq_true.mpr ⟨s.id, rfl, congrArg some h.symm⟩))

/-- A worker has at most one current session. -/
theorem session_eq_of_current (hs : s ∈ db.sessions.rows) (ht : t ∈ db.sessions.rows)
    (hcs : isCurrentSessionStatus s.status = true) (hct : isCurrentSessionStatus t.status = true)
    (h : s.workerID = t.workerID) : s = t := by
  refine db.sessions.eq_of_clash hs ht ?_
  refine Bool.or_eq_true_iff.mpr (.inr (sameKey_eq_true.mpr ⟨s.workerID, ?_, ?_⟩))
  · exact if_pos hcs
  · rw [h]; exact if_pos hct

theorem job_eq_of_id {k : Job} (hj : j ∈ db.jobs.rows) (hk : k ∈ db.jobs.rows) (h : j.id = k.id) :
    j = k :=
  db.jobs.eq_of_clash hj hk (sameKey_eq_true.mpr ⟨j.id, rfl, congrArg some h.symm⟩)

theorem attempt_eq_of_id (ha : a ∈ db.attempts.rows) (hb : b ∈ db.attempts.rows) (h : a.id = b.id) :
    a = b := by
  refine db.attempts.eq_of_clash ha hb ?_
  have hid : sameKey JobAttempt.idKey a b = true :=
    sameKey_eq_true.mpr ⟨a.id, rfl, congrArg some h.symm⟩
  simp only [jobAttempts, hid, Bool.true_or]

/-- An outcome identity names at most one attempt. -/
theorem attempt_eq_of_outcome {o : UUID} (ha : a ∈ db.attempts.rows) (hb : b ∈ db.attempts.rows)
    (hao : a.outcomeRequestID = some o) (hbo : b.outcomeRequestID = some o) : a = b := by
  refine db.attempts.eq_of_clash ha hb ?_
  have hid : sameKey JobAttempt.outcomeRequestID a b = true := sameKey_eq_true.mpr ⟨o, hao, hbo⟩
  simp only [jobAttempts, hid, Bool.or_true]

theorem lease_eq_of_id (hl : l ∈ db.leases.rows) (hm : m ∈ db.leases.rows) (h : l.id = m.id) :
    l = m := by
  refine db.leases.eq_of_clash hl hm ?_
  have hid : sameKey Lease.idKey l m = true :=
    sameKey_eq_true.mpr ⟨l.id, rfl, congrArg some h.symm⟩
  simp only [TaskForge.leases, hid, Bool.true_or]

theorem lease_eq_of_attempt (hl : l ∈ db.leases.rows) (hm : m ∈ db.leases.rows)
    (h : l.attemptID = m.attemptID) : l = m := by
  refine db.leases.eq_of_clash hl hm ?_
  have hid : sameKey Lease.attemptKey l m = true :=
    sameKey_eq_true.mpr ⟨l.attemptID, rfl, congrArg some h.symm⟩
  simp only [TaskForge.leases, hid, Bool.true_or, Bool.or_true]

theorem lease_eq_of_claim (hl : l ∈ db.leases.rows) (hm : m ∈ db.leases.rows)
    (h : l.claimRequestID = m.claimRequestID) : l = m := by
  refine db.leases.eq_of_clash hl hm ?_
  have hid : sameKey Lease.claimKey l m = true :=
    sameKey_eq_true.mpr ⟨l.claimRequestID, rfl, congrArg some h.symm⟩
  simp only [TaskForge.leases, hid, Bool.true_or, Bool.or_true]

theorem event_eq_of_id {d e : OutboxEvent} (hd : d ∈ db.outbox.rows) (he : e ∈ db.outbox.rows)
    (h : d.id = e.id) : d = e :=
  db.outbox.eq_of_clash hd he (sameKey_eq_true.mpr ⟨d.id, rfl, congrArg some h.symm⟩)

end DB

end TaskForge
