/-
What callers send and what they are answered (`internal/workers/types.go`), and
the checks made before a transaction begins (`internal/workers/validation.go`).

A validator returns the list of field errors it would report, in the source's
order and with its texts; the empty list is acceptance. The five checks that a
fence is complete, and the others of the same form, are one definition
(`mustBeUUID`) applied to each member's own field.
-/
import TaskForge.Lifecycle

namespace TaskForge

/-- `FieldError` -/
structure FieldError where
  field : String
  message : String
deriving DecidableEq, Repr

/-! ## Requests -/

/-- `workers.Fence` -/
structure Fence where
  jobID : UUID
  attemptID : UUID
  leaseID : UUID
  workerID : UUID
  sessionID : UUID
deriving DecidableEq, Repr

/-- `workers.Registration` -/
structure Registration where
  sessionID : UUID
  name : String
  hostname : String
  workerGroup : String
  concurrencyLimit : Int
  capabilities : List String
  supportedJobTypes : List String
  workerKeyID : Option UUID
deriving DecidableEq, Repr

/-- `workers.ClaimRequest` -/
structure ClaimRequest where
  workerID : UUID
  sessionID : UUID
  claimRequestID : UUID
  queue : String
deriving DecidableEq, Repr

/-- `workers.HeartbeatRequest` -/
structure HeartbeatRequest where
  workerID : UUID
  sessionID : UUID
deriving DecidableEq, Repr

/-- `workers.RenewalRequest` -/
structure RenewalRequest where
  fence : Fence
  renewalRequestID : UUID
  expectedVersion : Int
deriving DecidableEq, Repr

/-- `workers.FailureReport` -/
structure FailureReport where
  fence : Fence
  outcomeRequestID : UUID
  class_ : FailureClass
  errorCode : String
  errorMessage : String
deriving DecidableEq, Repr

/-- `workers.CancelAcknowledgment` -/
structure CancelAcknowledgment where
  fence : Fence
  outcomeRequestID : UUID
deriving DecidableEq, Repr

/-- `workers.ResultRef`. An absent Go string is the empty string; an absent body
is `none`. -/
structure ResultRef where
  location : Location
  inline : Option String
  bucket : String
  key : String
  sizeBytes : Int
  checksum : String
deriving DecidableEq, Repr

/-- `jobs.NormalizedRequest`. `scheduledAt` is a Go instant, in nanoseconds. -/
structure NormalizedRequest where
  queue : String
  type_ : String
  payload : String
  priority : Int
  maxAttempts : Int
  timeoutSeconds : Int
  requiredCapabilities : List String
  scheduledAt : Option Int
deriving DecidableEq, Repr

/-- `outbox.TraceContext` -/
structure TraceContext where
  traceparent : String
  tracestate : String
deriving DecidableEq, Repr

/-! ## Answers -/

/-- `workers.Session` -/
structure Session where
  id : UUID
  workerID : UUID
  name : String
  hostname : String
  workerGroup : String
  concurrencyLimit : Int
  capabilities : List String
  supportedJobTypes : List String
  status : SessionStatus
  registeredAt : Int
  lastHeartbeatAt : Int
deriving DecidableEq, Repr

/-- `workers.ClaimDisposition` -/
inductive ClaimDisposition where
  | claimed | queueEmpty | duplicateNotification | noEligibleJob | capacityExhausted
deriving DecidableEq, Repr

/-- `workers.Assignment`, without the worker-local `ExecutionDeadline`. -/
structure Assignment where
  scope : String
  jobID : UUID
  queue : String
  jobType : String
  payload : String
  priority : Int
  timeoutSeconds : Int
  requiredCapabilities : List String
  attemptID : UUID
  attemptNumber : ℕ
  leaseID : UUID
  leaseExpiresAt : Int
  leaseRemaining : Int
  workerID : UUID
  sessionID : UUID
deriving DecidableEq, Repr

/-- `workers.ClaimResult` -/
structure ClaimResult where
  disposition : ClaimDisposition
  assignment : Option Assignment
  replayed : Bool
deriving DecidableEq, Repr

/-- `workers.CancellationDirective` -/
structure CancellationDirective where
  jobID : UUID
  attemptID : UUID
  leaseID : UUID
  cancelRequestedAt : Int
deriving DecidableEq, Repr

/-- `workers.HeartbeatResult` -/
structure HeartbeatResult where
  sessionID : UUID
  status : SessionStatus
  lastHeartbeatAt : Int
  cancellations : List CancellationDirective
deriving DecidableEq, Repr

/-- `workers.StartResult` -/
structure StartResult where
  attemptID : UUID
  startedAt : Int
  timeoutAt : Int
  remaining : Int
  replayed : Bool
deriving DecidableEq, Repr

/-- `workers.OutcomeResult`. The empty reason is `none`. -/
structure OutcomeResult where
  jobID : UUID
  jobStatus : JobStatus
  attemptStatus : AttemptStatus
  retryAt : Option Int
  retryDelay : Option Int
  deadLetterReason : Option DLQReason
  replayed : Bool
deriving DecidableEq, Repr

/-- `workers.RenewalResult` -/
structure RenewalResult where
  leaseID : UUID
  renewalVersion : ℕ
  expiresAt : Int
  remaining : Int
  replayed : Bool
deriving DecidableEq, Repr

/-- `workers.ReconcileStats` -/
structure ReconcileStats where
  staleSessions : ℕ
  expiredLeases : ℕ
  timedOutAttempts : ℕ
  canceledAttempts : ℕ
  requeuedJobs : ℕ
  retryWaitingJobs : ℕ
  deadLetteredJobs : ℕ
  skipped : ℕ
deriving DecidableEq, Repr

/-- `jobs.CancelResult`. `none` is Go's zero time. -/
structure CancelResult where
  jobID : UUID
  status : JobStatus
  cancelRequestedAt : Option Int
  alreadyRequested : Bool
deriving DecidableEq, Repr

/-! ## Validation -/

/-- The check every identifier gets. -/
def mustBeUUID (field : String) (id : UUID) : List FieldError :=
  if id = uuidNil then [⟨field, "must be a UUID"⟩] else []

/-- One more field error when the condition fails. -/
def mustHold (ok : Bool) (field message : String) : List FieldError :=
  if ok then [] else [⟨field, message⟩]

def namePattern63 : String := "^[a-z0-9][a-z0-9._-]\x7b0,63\x7d$"
def namePattern127 : String := "^[a-z0-9][a-z0-9._-]\x7b0,127\x7d$"

/-- `ValidateFence` -/
def validateFence (f : Fence) : List FieldError :=
  mustBeUUID "job_id" f.jobID ++ mustBeUUID "attempt_id" f.attemptID ++
    mustBeUUID "lease_id" f.leaseID ++ mustBeUUID "worker_id" f.workerID ++
    mustBeUUID "worker_session_id" f.sessionID

/-- `ValidateClaim` -/
def validateClaim (req : ClaimRequest) : List FieldError :=
  mustBeUUID "worker_id" req.workerID ++ mustBeUUID "worker_session_id" req.sessionID ++
    mustBeUUID "claim_request_id" req.claimRequestID ++
    mustHold (matchesName 63 req.queue) "queue" "must be a valid queue name"

/-- `ValidateHeartbeat` -/
def validateHeartbeat (req : HeartbeatRequest) : List FieldError :=
  mustBeUUID "worker_id" req.workerID ++ mustBeUUID "worker_session_id" req.sessionID

/-- `ValidateRenewal` -/
def validateRenewal (req : RenewalRequest) : List FieldError :=
  validateFence req.fence ++ mustBeUUID "renewal_request_id" req.renewalRequestID ++
    mustHold (decide (0 ≤ req.expectedVersion)) "expected_renewal_version" "must not be negative"

/-- `ValidateFailureReport` -/
def validateFailureReport (report : FailureReport) : List FieldError :=
  validateFence report.fence ++ mustBeUUID "outcome_request_id" report.outcomeRequestID ++
    mustHold report.class_.reportableByHandler "failure_class"
      "must be RETRYABLE or PERMANENT; timeout, cancellation, and abandonment are server-authoritative" ++
    ((validateErrorCode report.errorCode).map (FieldError.mk "error_code")).toList ++
    ((validateErrorMessage report.errorMessage).map (FieldError.mk "error_message")).toList

/-- `ValidateCancelAcknowledgment` -/
def validateCancelAcknowledgment (ack : CancelAcknowledgment) : List FieldError :=
  validateFence ack.fence ++ mustBeUUID "outcome_request_id" ack.outcomeRequestID

/-- `NormalizeRegistration` -/
def normalizeRegistration (reg : Registration) : Except (List FieldError) Registration :=
  let name := trimSpace reg.name
  let hostname := trimSpace reg.hostname
  let workerGroup := trimSpace reg.workerGroup
  let fields :=
    mustBeUUID "worker_session_id" reg.sessionID ++
    mustHold (matchesName 127 name) "worker_name" ("must match " ++ namePattern127) ++
    mustHold (decide (1 ≤ octetLength hostname) && decide (octetLength hostname ≤ 255)) "hostname"
      "must contain between 1 and 255 characters" ++
    mustHold (matchesName 63 workerGroup) "worker_group" ("must match " ++ namePattern63) ++
    mustHold (between 1 256 reg.concurrencyLimit) "concurrency_limit" "must be between 1 and 256" ++
    mustHold (decide (reg.capabilities.length ≤ 64)) "capabilities"
      "must contain at most 64 values" ++
    mustHold (reg.capabilities.all fun c => matchesName 63 (trimSpace c)) "capabilities"
      ("every value must match " ++ namePattern63) ++
    mustHold (decide (1 ≤ reg.supportedJobTypes.length) && decide (reg.supportedJobTypes.length ≤ 64))
      "supported_job_types" "must contain between 1 and 64 values" ++
    mustHold (reg.supportedJobTypes.all fun t => matchesName 127 (trimSpace t))
      "supported_job_types" "every value must be a valid job type"
  if fields = [] then
    .ok { reg with
      name := name
      hostname := hostname
      workerGroup := workerGroup
      capabilities := canonicalSet reg.capabilities
      supportedJobTypes := canonicalSet reg.supportedJobTypes }
  else .error fields

/-- `jobs.ValidateIdempotencyKey` -/
def validateIdempotencyKey (key : String) : List FieldError :=
  if trimSpace key = "" then [⟨"Idempotency-Key", "header is required"⟩]
  else if 255 < octetLength key then [⟨"Idempotency-Key", "must be at most 255 bytes"⟩]
  else mustHold (!key.toList.any fun r => decide (r.toNat < 0x20) || r.toNat == 0x7f)
    "Idempotency-Key" "must not contain control characters"

/-! ## What acceptance means -/

theorem mustHold_eq_nil {ok : Bool} {field message : String} :
    mustHold ok field message = [] ↔ ok = true := by
  cases ok <;> simp [mustHold]

/-- An accepted failure report declares a class its handler may declare, a code
that matches the stored pattern, and a message within the stored bounds. -/
theorem validateFailureReport_eq_nil {report : FailureReport}
    (h : validateFailureReport report = []) :
    (report.class_ = .retryable ∨ report.class_ = .permanent) ∧
      matchesName 63 report.errorCode = true ∧ octetLength report.errorMessage ≤ 512 ∧
      report.errorMessage.toList.any isControl = false := by
  unfold validateFailureReport at h
  simp only [List.append_eq_nil_iff, mustHold_eq_nil, Option.toList_eq_nil_iff,
    Option.map_eq_none_iff] at h
  obtain ⟨⟨⟨-, hclass⟩, hcode⟩, hmessage⟩ := h
  refine ⟨?_, validateErrorCode_eq_none hcode, validateErrorMessage_eq_none hmessage⟩
  simpa [FailureClass.reportableByHandler] using hclass

/-- What normalising keeps: the texts trimmed, the lists as sets of trimmed names. -/
theorem normalizeRegistration_out {reg out : Registration}
    (h : normalizeRegistration reg = .ok out) :
    out = { reg with
      name := trimSpace reg.name
      hostname := trimSpace reg.hostname
      workerGroup := trimSpace reg.workerGroup
      capabilities := canonicalSet reg.capabilities
      supportedJobTypes := canonicalSet reg.supportedJobTypes } := by
  simp only [normalizeRegistration] at h
  split_ifs at h
  exact (Except.ok.inj h).symm

/-- No name of an accepted registration is blank. -/
theorem normalizeRegistration_names {reg out : Registration}
    (h : normalizeRegistration reg = .ok out) :
    (∀ c ∈ reg.capabilities, trimSpace c ≠ "") ∧
      ∀ t ∈ reg.supportedJobTypes, trimSpace t ≠ "" := by
  simp only [normalizeRegistration] at h
  split_ifs at h with hfields
  simp only [List.append_eq_nil_iff, mustHold_eq_nil, List.all_eq_true] at hfields
  obtain ⟨⟨⟨-, hcap⟩, -⟩, htype⟩ := hfields
  exact ⟨fun c hc => ne_empty_of_matchesName (hcap c hc),
    fun t ht => ne_empty_of_matchesName (htype t ht)⟩

/-- An accepted registration fits the bounds of `worker_sessions` and `workers`. -/
theorem normalizeRegistration_eq_ok {reg out : Registration}
    (h : normalizeRegistration reg = .ok out) :
    out.sessionID = reg.sessionID ∧ matchesName 127 out.name = true ∧
      (1 ≤ octetLength out.hostname ∧ octetLength out.hostname ≤ 255) ∧
      matchesName 63 out.workerGroup = true ∧ between 1 256 out.concurrencyLimit = true ∧
      (out.capabilities.length ≤ 64 ∧ ∀ c ∈ out.capabilities, matchesName 63 c = true) ∧
      (1 ≤ out.supportedJobTypes.length ∧ out.supportedJobTypes.length ≤ 64 ∧
        ∀ t ∈ out.supportedJobTypes, matchesName 127 t = true) := by
  simp only [normalizeRegistration] at h
  split_ifs at h with hfields
  cases h
  simp only [List.append_eq_nil_iff, mustHold_eq_nil, Bool.and_eq_true, decide_eq_true_eq,
    List.all_eq_true] at hfields
  obtain ⟨⟨⟨⟨⟨⟨⟨⟨-, hname⟩, hhost⟩, hgroup⟩, hlimit⟩, hcaps⟩, hcap⟩, htypes⟩, htype⟩ := hfields
  refine ⟨rfl, hname, hhost, hgroup, hlimit, ⟨(canonicalSet_length_le _).trans hcaps, ?_⟩,
    ⟨?_, (canonicalSet_length_le _).trans htypes.2, ?_⟩⟩
  · intro c hc
    obtain ⟨-, w, hw, rfl⟩ := mem_canonicalSet.mp hc
    exact hcap w hw
  · -- The set of a non-empty list of non-empty names is not empty.
    obtain ⟨t, ht⟩ := List.exists_mem_of_length_pos (by omega : 0 < reg.supportedJobTypes.length)
    have hmem : trimSpace t ∈ canonicalSet reg.supportedJobTypes :=
      mem_canonicalSet.mpr ⟨ne_empty_of_matchesName (htype t ht), t, ht, rfl⟩
    exact List.length_pos_of_mem hmem
  · intro t ht
    obtain ⟨-, w, hw, rfl⟩ := mem_canonicalSet.mp ht
    exact htype w hw

/-- An accepted key fits its column. -/
theorem validateIdempotencyKey_eq_nil {key : String} (h : validateIdempotencyKey key = []) :
    lengthBetween 1 255 key = true := by
  unfold validateIdempotencyKey at h
  split_ifs at h with hempty hlong
  rw [mustHold_eq_nil, Bool.not_eq_true', List.any_eq_false] at h
  have hstorable : storable key = true := storable_eq_true.mpr fun hnul => h _ hnul (by decide)
  have hpos : 1 ≤ key.length := by
    by_contra hlen
    have hnil : key = "" := String.length_eq_zero_iff.mp (by omega)
    exact hempty (by rw [hnil]; rfl)
  have hle : key.length ≤ 255 := (length_le_octetLength key).trans (not_lt.mp hlong)
  simp [lengthBetween, hstorable, hpos, hle]

end TaskForge
