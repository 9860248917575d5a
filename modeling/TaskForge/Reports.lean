/-
What a worker may say about an attempt it holds: `Start`, `RenewLease`,
`Succeed`, `Fail` and `AcknowledgeCancellation` (`internal/workers`).

Five operations, one fence. Each locks the same rows and then asks its own
questions in its own order; three of them recognize a replay of what they
already committed before they ask whether the caller still holds authority, and
one of them after. The definitions keep each operation's order. The results say,
for each, that a committed call either repeated history and wrote nothing, or
held the exact binding with everything its checks demand, and wrote exactly the
rows named.
-/
import TaskForge.Outcome

open Relational Fallible

namespace TaskForge

/-! ## Row updates -/

/-- `Start`'s update of the attempt. -/
def startedAttempt (now timeoutAt : Int) (a : JobAttempt) : JobAttempt :=
  { a with status := .running, startedAt := some now, timeoutAt := some timeoutAt }

/-- `Start`'s update of the job. -/
def runningJob (now : Int) (j : Job) : Job := { j with status := .running, updatedAt := now }

/-- `Succeed`'s update of the attempt. -/
def succeededAttempt (now : Int) (a : JobAttempt) : JobAttempt :=
  { a with status := .succeeded, finishedAt := some now }

/-- `Succeed`'s update of the job. -/
def succeededJob (now : Int) (j : Job) : Job := { j with status := .succeeded, updatedAt := now }

/-- `RenewLease`'s update of the lease. -/
def renewedLease (now expiresAt : Int) (renewalRequestID : UUID) (l : Lease) : Lease :=
  { l with
    renewedAt := now
    expiresAt := expiresAt
    renewalVersion := l.renewalVersion + 1
    lastRenewalRequestID := some renewalRequestID }

/-- `remainingUntil` -/
def remainingUntil (expiresAt serverNow : Int) : Int :=
  if goTime expiresAt - goTime serverNow < 0 then 0 else goTime expiresAt - goTime serverNow

/-! ## Start -/

/-- The instant `Start` stores as the attempt's deadline. -/
def startDeadline (now : Int) (j : Job) : Int :=
  storeTime (goTime now + j.timeoutSeconds * second)

/-- `Store.Start` -/
def start (env : Env) (scope : String) (fence : Fence) (db : DB) : Tx (StartResult × DB) := do
  validate (validateFence fence)
  let state ← lockFence db scope fence env.clock.s₀
  demand state.leaseUsable .leaseExpired
  if state.jobStatus = .running ∧ state.attemptStatus = .running then do
    let row ← fetch (db.attempts.rows.find? fun a => a.id == fence.attemptID)
      (.failed "read replayed attempt start")
    let startedAt ← fetch row.startedAt (.failed "read replayed attempt start")
    let timeoutAt ← fetch row.timeoutAt
      (.stateConflict "attempt has no persisted execution deadline")
    pure (⟨fence.attemptID, startedAt, timeoutAt, remainingUntil timeoutAt state.serverNow, true⟩, db)
  else do
    demand (!(state.jobStatus == .cancelRequested || state.jobStatus == .canceled))
      .cancellationRequested
    demand (state.jobStatus == .leased && state.attemptStatus == .leased) (.stateConflict "")
    let job ← fetch (db.jobs.rows.find? fun j => j.id == fence.jobID)
      (.failed "read attempt timeout budget")
    let timeoutAt := startDeadline state.serverNow job
    let attempts ← updateOne .jobAttempts db.attempts
      (fun a => a.id == fence.attemptID && a.status == .leased)
      (startedAttempt state.serverNow timeoutAt) (.stateConflict "") (reported "start attempt")
    let jobs ← updateOne .jobs db.jobs (fun j => j.id == fence.jobID && j.status == .leased)
      (runningJob state.serverNow) (.stateConflict "") (reported "start job")
    pure (⟨fence.attemptID, state.serverNow, timeoutAt, job.timeoutSeconds * second, false⟩,
      { db with jobs := jobs, attempts := attempts })

/-! ## Renewal -/

/-- The instant a lease issued or renewed at `now` is stored to expire. -/
def leaseExpiry (env : Env) (now : Int) : Int := storeTime (goTime now + env.leaseDuration)

/-- `Store.RenewLease` -/
def renewLease (env : Env) (scope : String) (req : RenewalRequest) (db : DB) :
    Tx (RenewalResult × DB) := do
  validate (validateRenewal req)
  demand (decide (0 < env.leaseDuration)) (.failed "lease duration must be positive")
  let state ← lockFence db scope req.fence env.clock.s₀
  demand state.leaseUsable .leaseExpired
  demand (!state.timedOut) .attemptTimedOut
  demand (isExecutingJobStatus state.jobStatus && isExecutingAttemptStatus state.attemptStatus)
    (.stateConflict "")
  if state.lastRenewalRequestID = some req.renewalRequestID then do
    demand ((state.renewalVersion : Int) == req.expectedVersion + 1) .renewalConflict
    pure (⟨req.fence.leaseID, state.renewalVersion, state.expiresAt,
      remainingUntil state.expiresAt state.serverNow, true⟩, db)
  else do
    demand ((db.leases.rows.find? fun l =>
      l.lastRenewalRequestID == some req.renewalRequestID).all
        fun owner => owner.id == req.fence.leaseID) .renewalConflict
    demand ((state.renewalVersion : Int) == req.expectedVersion) .renewalConflict
    let row ← updateReturning .leases db.leases
      (fun l => l.id == req.fence.leaseID &&
        (l.status == .active && (l.renewalVersion : Int) == req.expectedVersion))
      (renewedLease state.serverNow (leaseExpiry env state.serverNow) req.renewalRequestID)
      .renewalConflict (onUnique .renewalConflict "renew lease")
    pure (⟨req.fence.leaseID, row.1.renewalVersion, row.1.expiresAt,
      remainingUntil row.1.expiresAt state.serverNow, false⟩, { db with leases := row.2 })

/-! ## Success -/

/-- `results.Result.Validate`: the first problem, if there is one. -/
def ResultRef.problem (r : ResultRef) : Option String :=
  let size := if r.sizeBytes < 0 then some "invalid result: size must not be negative" else none
  match r.location with
  | .inline =>
    if r.inline.getD "" = "" then some "invalid result: inline result requires a body"
    else if r.bucket ≠ "" ∨ r.key ≠ "" ∨ r.checksum ≠ "" then
      some "invalid result: inline result must not carry object location fields"
    else size
  | .object =>
    if r.inline.isSome then some "invalid result: object result must not carry an inline body"
    else if r.bucket = "" ∨ r.key = "" then
      some "invalid result: object result requires a bucket and a key"
    else if r.checksum = "" then some "invalid result: object result requires a checksum"
    else size
  | .other word => some ("invalid result: unknown location " ++ goQuoted word)

/-- The row `results.InsertResultTx` writes for `Succeed`. -/
def resultRow (start : Int) (scope : String) (jobID attemptID : UUID) (r : ResultRef) :
    ResultRow where
  jobID := jobID
  attemptID := attemptID
  scope := scope
  location := r.location
  inlineBody := r.inline.bind nullableString
  objectBucket := nullableString r.bucket
  objectKey := nullableString r.key
  sizeBytes := r.sizeBytes
  checksumSHA256 := nullableString r.checksum
  contentType := "application/json"
  createdAt := start

/-- `results.InsertResultTx` -/
def insertResultTx (t : Table results) (start : Int) (scope : String) (jobID attemptID : UUID)
    (r : ResultRef) : Tx (Table results) := do
  demand r.problem.isNone (.failed (r.problem.getD ""))
  insertRow .results t (resultRow start scope jobID attemptID r) (reported "insert result")

/-- `Succeed`'s optional result. -/
def recordResult (t : Table results) (start : Int) (scope : String) (jobID attemptID : UUID) :
    Option ResultRef → Tx (Table results)
  | none => pure t
  | some ref => insertResultTx t start scope jobID attemptID ref

/-- `Store.Succeed` -/
def succeed (env : Env) (scope : String) (fence : Fence) (result : Option ResultRef) (db : DB) :
    Tx (Unit × DB) := do
  validate (validateFence fence)
  let state ← lockAuthorityRows db scope fence env.clock.s₀
  if state.jobStatus = .succeeded ∧ state.attemptStatus = .succeeded ∧
      state.leaseStatus = .completed then
    pure ((), db)
  else do
    demand state.sessionHealthy .fenceRejected
    demand (!state.timedOut) .attemptTimedOut
    demand state.leaseUsable .leaseExpired
    demand (state.jobStatus == .running && state.attemptStatus == .running) (.stateConflict "")
    let jobs ← updateOne .jobs db.jobs (fun j => j.id == fence.jobID && j.status == .running)
      (succeededJob state.serverNow) (.stateConflict "") (reported "complete job")
    let attempts ← updateOne .jobAttempts db.attempts
      (fun a => a.id == fence.attemptID && a.status == .running)
      (succeededAttempt state.serverNow) (.stateConflict "") (reported "complete attempt")
    let leases ← updateOne .leases db.leases (fun l => l.id == fence.leaseID && l.status == .active)
      (closedLease .completed state.serverNow) (.stateConflict "")
      (reported "release completed lease")
    let results ← recordResult db.results env.clock.start scope fence.jobID fence.attemptID result
    pure ((), { db with jobs := jobs, attempts := attempts, leases := leases, results := results })

/-! ## Failure and cancellation -/

/-- `decidedJobStatus` -/
def decidedJobStatus (state : FenceState) : JobStatus :=
  if state.attemptStatus = .canceled then .canceled
  else match state.retryDelayMillis with
    | none => .deadLettered
    | some 0 => .queued
    | some _ => .retryWait

/-- `replayedOutcome`, with the job id its caller fills in. -/
def replayedOutcome (state : FenceState) (report : FailureReport) : Tx OutcomeResult := do
  demand (state.failureClass == some report.class_) .outcomeConflict
  demand (derefString state.errorCode == report.errorCode &&
    derefString state.errorMessage == report.errorMessage) .outcomeConflict
  pure
    { jobID := report.fence.jobID
      jobStatus := decidedJobStatus state
      attemptStatus := state.attemptStatus
      retryAt := state.retryAt
      retryDelay := state.retryDelayMillis.map (· * millisecond)
      deadLetterReason :=
        if decidedJobStatus state = .deadLettered then
          if state.failureClass = some .permanent then some .permanentFailure
          else some .attemptsExhausted
        else none
      replayed := true }

/-- `rejectForeignOutcomeIdentity` -/
def rejectForeignOutcomeIdentity (db : DB) (outcomeRequestID attemptID : UUID) : Tx Unit :=
  demand ((db.attempts.rows.find? fun a => a.outcomeRequestID == some outcomeRequestID).all
    fun owner => owner.id == attemptID) .outcomeConflict

/-- The outcome a worker's failure report records. -/
def failedOutcome (report : FailureReport) : AttemptOutcome :=
  ⟨.failed, report.class_, report.errorCode, report.errorMessage, some report.outcomeRequestID,
    .released⟩

/-- `Store.Fail` -/
def fail (env : Env) (scope : String) (report : FailureReport) (db : DB) :
    Tx (OutcomeResult × DB) := do
  validate (validateFailureReport report)
  let state ← lockAuthorityRows db scope report.fence env.clock.s₀
  if state.outcomeRequestID = some report.outcomeRequestID then do
    let result ← replayedOutcome state report
    pure (result, db)
  else do
    rejectForeignOutcomeIdentity db report.outcomeRequestID report.fence.attemptID
    demand state.sessionHealthy .fenceRejected
    demand (!state.timedOut) .attemptTimedOut
    demand state.leaseUsable .leaseExpired
    demand (state.jobStatus == .running && state.attemptStatus == .running) (.stateConflict "")
    let decision ← checked (env.retryPolicy.decide report.class_ state.attemptNumber
      state.attemptNumber state.maxAttempts env.backoff) .stateConflict
    finalizeAttempt env db state report.fence (failedOutcome report) decision

/-- `Store.AcknowledgeCancellation` -/
def acknowledgeCancellation (env : Env) (scope : String) (ack : CancelAcknowledgment) (db : DB) :
    Tx (OutcomeResult × DB) := do
  validate (validateCancelAcknowledgment ack)
  let state ← lockAuthorityRows db scope ack.fence env.clock.s₀
  if state.outcomeRequestID = some ack.outcomeRequestID then do
    demand (state.attemptStatus == .canceled) .outcomeConflict
    pure (⟨ack.fence.jobID, decidedJobStatus state, state.attemptStatus, none, none, none, true⟩, db)
  else do
    rejectForeignOutcomeIdentity db ack.outcomeRequestID ack.fence.attemptID
    demand state.sessionHealthy .fenceRejected
    demand state.leaseUsable .leaseExpired
    demand (state.jobStatus == .cancelRequested && isExecutingAttemptStatus state.attemptStatus)
      (.stateConflict "")
    finalizeCancellation db state ack.fence (some ack.outcomeRequestID) .released

/-! ## What each call needs and writes -/

/-- Live authority at `now`: the session is healthy and the lease is usable. -/
structure Live (now : Int) (s : WorkerSession) (l : Lease) : Prop where
  healthy : s.status = .healthy
  active : l.status = .active
  unexpired : now < l.expiresAt

/-- The attempt's deadline, if it has one, is still ahead. -/
def InTime (now : Int) (a : JobAttempt) : Prop := ∀ t, a.timeoutAt = some t → now < t

def startWrites (now : Int) (j : Job) (a : JobAttempt) : Writes where
  job := .replace j (runningJob now j)
  attempt := .replace a (startedAttempt now (startDeadline now j) a)

def renewWrites (env : Env) (now : Int) (id : UUID) (l : Lease) : Writes where
  lease := .replace l (renewedLease now (leaseExpiry env now) id l)

def succeedWrites (env : Env) (scope : String) (now : Int) (result : Option ResultRef) (j : Job)
    (a : JobAttempt) (l : Lease) : Writes where
  job := .replace j (succeededJob now j)
  attempt := .replace a (succeededAttempt now a)
  lease := .replace l (closedLease .completed now l)
  results := (result.map (resultRow env.clock.start scope j.id a.id)).toList

section Spec

variable {env : Env} {db db' : DB} {scope : String} {fence : Fence} {f : Failure}
variable {req : RenewalRequest} {s : WorkerSession} {j : Job} {a : JobAttempt} {l : Lease}
  {r : RenewalResult} {result : Option ResultRef} {report : FailureReport}
  {ack : CancelAcknowledgment}

/-! ### Start -/

theorem start_eq_ok {r : StartResult} (h : start env scope fence db = .ok (r, db')) :
    ∃ s j a l, Authority db scope fence s j a l ∧ Live env.clock.s₀ s l ∧
      ((j.status = .running ∧ a.status = .running ∧ db' = db) ∨
        (j.status = .leased ∧ a.status = .leased ∧
          (startWrites env.clock.s₀ j a).Applied db db')) := by
  simp only [start, bind_eq_ok, validate_eq_ok, demand_eq_ok, fetch_eq_ok, lockFence_eq_ok,
    ite_eq_ok, pure_eq_ok, Prod.mk.injEq] at h
  obtain ⟨-, -, state, ⟨s, j, a, l, hA, hs, rfl⟩, -, hu, hrest⟩ := h
  obtain ⟨hactive, hexp⟩ := leaseUsable_ofRows.mp hu
  refine ⟨s, j, a, l, hA, ⟨hs, hactive, hexp⟩, ?_⟩
  rcases hrest with ⟨⟨hj, ha⟩, -, -, -, -, -, -, -, rfl⟩ |
    ⟨-, -, -, -, hjob, k, hk, attempts', hatt, jobs', hjobs, -, rfl⟩
  · exact .inl ⟨hj, ha, rfl⟩
  · rw [Bool.and_eq_true, beq_iff_eq, beq_iff_eq] at hjob
    have hkj : k = j := by
      obtain ⟨hkm, hkid⟩ := found_of_find? hk
      exact db.job_eq_of_id hkm hA.job_mem
        ((beq_iff_eq.mp hkid).trans hA.job_id.symm)
    obtain ⟨-, harows⟩ := updateOne_eq_ok hA.attempt_pk hatt
    obtain ⟨-, hjrows⟩ := updateOne_eq_ok hA.job_pk hjobs
    subst hkj
    refine .inr ⟨hjob.1, hjob.2, ?_⟩
    constructor <;> simp [startWrites, RowWrite.apply, harows, hjrows, FenceState.ofRows]

theorem start_forced (hf : f.cause ≠ .check) (h : start env scope fence db = .error f) :
    ∃ s j a l, Authority db scope fence s j a l ∧ Live env.clock.s₀ s l ∧
      j.status = .leased ∧ a.status = .leased ∧ (startWrites env.clock.s₀ j a).Refused db f := by
  simp only [start, bind_eq_error, validate_forced hf, demand_forced hf, fetch_forced hf,
    lockFence_forced hf, validate_eq_ok, demand_eq_ok, fetch_eq_ok, lockFence_eq_ok, ite_eq_error,
    pure_ne_error, false_or, and_false, exists_false, or_false] at h
  obtain ⟨-, -, state, ⟨s, j, a, l, hA, hs, rfl⟩, -, hu, -, -, -, -, hjob, k, hk, hrest⟩ := h
  obtain ⟨hactive, hexp⟩ := leaseUsable_ofRows.mp hu
  rw [Bool.and_eq_true, beq_iff_eq, beq_iff_eq] at hjob
  obtain ⟨hj, ha⟩ : j.status = .leased ∧ a.status = .leased := hjob
  have hkj : k = j := by
    obtain ⟨hmem, hkid⟩ := found_of_find? hk
    exact db.job_eq_of_id hmem hA.job_mem
      ((beq_iff_eq.mp hkid).trans hA.job_id.symm)
  subst hkj
  refine ⟨s, k, a, l, hA, ⟨hs, hactive, hexp⟩, hj, ha, ?_⟩
  rcases hrest with hatt | ⟨attempts', -, hjobs⟩
  · exact .attempt (updateOne_eq_error hA.attempt_mem (by simp [hA.attempt_id, ha])
      hA.attempt_pk hatt)
  · exact .job (updateOne_eq_error hA.job_mem (by simp [hA.job_id, hj]) hA.job_pk hjobs)

/-! ### Renewal -/

/-- What a renewal that extends the window needs. No lease holds its identity:
its own does not, and any other would have been found. -/
structure RenewReady (env : Env) (req : RenewalRequest) (db : DB) (s : WorkerSession) (j : Job)
    (a : JobAttempt) (l : Lease) : Prop where
  live : Live env.clock.s₀ s l
  inTime : InTime env.clock.s₀ a
  duration : 0 < env.leaseDuration
  job : isExecutingJobStatus j.status = true
  attempt : isExecutingAttemptStatus a.status = true
  version : (l.renewalVersion : Int) = req.expectedVersion
  identity : ∀ m ∈ db.leases.rows, m.lastRenewalRequestID ≠ some req.renewalRequestID

theorem renewal_identity_free (hA : Authority db scope req.fence s j a l)
    (hown : l.lastRenewalRequestID ≠ some req.renewalRequestID)
    (hfound : ((db.leases.rows.find? fun m =>
      m.lastRenewalRequestID == some req.renewalRequestID).all
        fun owner => owner.id == req.fence.leaseID) = true) :
    ∀ m ∈ db.leases.rows, m.lastRenewalRequestID ≠ some req.renewalRequestID := by
  intro m hm hmid
  cases hf : db.leases.rows.find? fun m => m.lastRenewalRequestID == some req.renewalRequestID with
  | none => exact List.find?_eq_none.mp hf m hm (by simp [hmid])
  | some o =>
    -- The row found is the caller's own lease, which does not hold the identity.
    rw [hf] at hfound
    have hoid : o.id = req.fence.leaseID := by simpa using hfound
    have hol : o = l := db.lease_eq_of_id (List.mem_of_find?_eq_some hf) hA.lease_mem
      (hoid.trans hA.lease_id.symm)
    have ho := List.find?_some hf
    rw [hol] at ho
    exact hown (by simpa using ho)

/-- What a renewal that was answered did: it recognized the renewal the lease
carries and wrote nothing, or it extended the lease. -/
inductive Renewal (env : Env) (req : RenewalRequest) (db db' : DB) (s : WorkerSession) (j : Job)
    (a : JobAttempt) (l : Lease) (r : RenewalResult) : Prop where
  | replayed (replayed : r.replayed = true) (version : r.renewalVersion = l.renewalVersion)
      (expiry : r.expiresAt = l.expiresAt)
      (identity : l.lastRenewalRequestID = some req.renewalRequestID)
      (expected : (l.renewalVersion : Int) = req.expectedVersion + 1) (same : db' = db)
  | extended (fresh : r.replayed = false) (version : r.renewalVersion = l.renewalVersion + 1)
      (expiry : r.expiresAt = leaseExpiry env env.clock.s₀)
      (ready : RenewReady env req db s j a l)
      (applied : (renewWrites env env.clock.s₀ req.renewalRequestID l).Applied db db')

theorem renewLease_answer (h : renewLease env scope req db = .ok (r, db')) :
    ∃ s j a l, Authority db scope req.fence s j a l ∧ Live env.clock.s₀ s l ∧
      InTime env.clock.s₀ a ∧ Renewal env req db db' s j a l r := by
  simp only [renewLease, bind_eq_ok, validate_eq_ok, demand_eq_ok, lockFence_eq_ok, ite_eq_ok,
    pure_eq_ok, Prod.mk.injEq, decide_eq_true_eq, Bool.not_eq_true', Bool.and_eq_true] at h
  obtain ⟨-, -, -, hdur, state, ⟨s, j, a, l, hA, hs, rfl⟩, -, hu, -, ht, -, hexec, hrest⟩ := h
  obtain ⟨hactive, hexp⟩ := leaseUsable_ofRows.mp hu
  refine ⟨s, j, a, l, hA, ⟨hs, hactive, hexp⟩, timedOut_ofRows.mp ht, ?_⟩
  rcases hrest with ⟨hown, -, hver, rfl, rfl⟩ |
    ⟨hown, -, hfound, -, hver, ⟨l', leases'⟩, hupd, rfl, rfl⟩
  · exact .replayed rfl rfl rfl hown (beq_iff_eq.mp hver) rfl
  · obtain ⟨-, rfl, hlrows⟩ := updateReturning_eq_ok hA.lease_pk hupd
    refine .extended rfl rfl rfl ⟨⟨hs, hactive, hexp⟩, timedOut_ofRows.mp ht, hdur, hexec.1,
      hexec.2, beq_iff_eq.mp hver, renewal_identity_free hA hown hfound⟩ ?_
    constructor <;> simp [renewWrites, RowWrite.apply, hlrows, FenceState.ofRows]

theorem renewLease_eq_ok (h : renewLease env scope req db = .ok (r, db')) :
    ∃ s j a l, Authority db scope req.fence s j a l ∧ Live env.clock.s₀ s l ∧
      InTime env.clock.s₀ a ∧
      (db' = db ∨ (RenewReady env req db s j a l ∧
        (renewWrites env env.clock.s₀ req.renewalRequestID l).Applied db db')) := by
  obtain ⟨s, j, a, l, hA, hlive, htime, hrenewal⟩ := renewLease_answer h
  refine ⟨s, j, a, l, hA, hlive, htime, ?_⟩
  cases hrenewal with
  | replayed replayed version expiry identity expected same => exact .inl same
  | extended fresh version expiry ready applied => exact .inr ⟨ready, applied⟩

theorem renewLease_forced (hf : f.cause ≠ .check) (h : renewLease env scope req db = .error f) :
    ∃ s j a l, Authority db scope req.fence s j a l ∧ RenewReady env req db s j a l ∧
      (renewWrites env env.clock.s₀ req.renewalRequestID l).Refused db f := by
  simp only [renewLease, bind_eq_error, validate_forced hf, demand_forced hf, lockFence_forced hf,
    validate_eq_ok, demand_eq_ok, lockFence_eq_ok, ite_eq_error, pure_ne_error, false_or,
    and_false, exists_false, or_false, decide_eq_true_eq, Bool.not_eq_true',
    Bool.and_eq_true] at h
  obtain ⟨-, -, -, hdur, state, ⟨s, j, a, l, hA, hs, rfl⟩, -, hu, -, ht, -, hexec, hown, -, hfound,
    -, hver, hupd⟩ := h
  obtain ⟨hactive, hexp⟩ := leaseUsable_ofRows.mp hu
  refine ⟨s, j, a, l, hA, ⟨⟨hs, hactive, hexp⟩, timedOut_ofRows.mp ht, hdur, hexec.1, hexec.2,
    beq_iff_eq.mp hver, renewal_identity_free hA hown hfound⟩, .lease ?_⟩
  have hver' : (l.renewalVersion : Int) = req.expectedVersion := beq_iff_eq.mp hver
  exact updateReturning_eq_error hA.lease_mem (by simp [hA.lease_id, hactive, hver'])
    hA.lease_pk hupd

/-! ### Success -/

/-- What a first success needs. -/
structure SucceedReady (now : Int) (s : WorkerSession) (j : Job) (a : JobAttempt) (l : Lease) :
    Prop where
  live : Live now s l
  inTime : InTime now a
  job : j.status = .running
  attempt : a.status = .running

theorem succeed_eq_ok {u : Unit} (h : succeed env scope fence result db = .ok (u, db')) :
    ∃ s j a l, Authority db scope fence s j a l ∧
      ((j.status = .succeeded ∧ a.status = .succeeded ∧ l.status = .completed ∧ db' = db) ∨
        (SucceedReady env.clock.s₀ s j a l ∧
          (succeedWrites env scope env.clock.s₀ result j a l).Applied db db')) := by
  simp only [succeed, bind_eq_ok, validate_eq_ok, demand_eq_ok, lockAuthorityRows_eq_ok, ite_eq_ok,
    pure_eq_ok, Prod.mk.injEq, Bool.not_eq_true', Bool.and_eq_true, beq_iff_eq] at h
  obtain ⟨-, -, state, ⟨s, j, a, l, hA, rfl⟩, hrest⟩ := h
  refine ⟨s, j, a, l, hA, ?_⟩
  rcases hrest with ⟨⟨hj, ha, hl⟩, -, rfl⟩ |
    ⟨-, -, hs, -, ht, -, hu, -, hexec, jobs', hjobs, attempts', hatt, leases', hlease, results', hres, -, rfl⟩
  · exact .inl ⟨hj, ha, hl, rfl⟩
  · obtain ⟨hactive, hexp⟩ := leaseUsable_ofRows.mp hu
    obtain ⟨-, hjrows⟩ := updateOne_eq_ok hA.job_pk hjobs
    obtain ⟨-, harows⟩ := updateOne_eq_ok hA.attempt_pk hatt
    obtain ⟨-, hlrows⟩ := updateOne_eq_ok hA.lease_pk hlease
    have hrrows : results'.rows = db.results.rows ++
        (result.map (resultRow env.clock.start scope j.id a.id)).toList := by
      cases result with
      | none => simp [← pure_eq_ok.mp hres]
      | some ref =>
        simp only [recordResult, insertResultTx, bind_eq_ok, demand_eq_ok] at hres
        obtain ⟨-, -, hins⟩ := hres
        rw [insertRow_eq_ok hins, hA.job_id, hA.attempt_id]
        rfl
    refine .inr ⟨⟨⟨beq_iff_eq.mp hs, hactive, hexp⟩, timedOut_ofRows.mp ht, hexec.1, hexec.2⟩, ?_⟩
    constructor <;> simp [succeedWrites, RowWrite.apply, hjrows, harows, hlrows, hrrows,
      FenceState.ofRows]

theorem succeed_forced (hf : f.cause ≠ .check) (h : succeed env scope fence result db = .error f) :
    ∃ s j a l, Authority db scope fence s j a l ∧ SucceedReady env.clock.s₀ s j a l ∧
      (succeedWrites env scope env.clock.s₀ result j a l).Refused db f := by
  simp only [succeed, bind_eq_error, validate_forced hf, demand_forced hf,
    lockAuthorityRows_forced hf, validate_eq_ok, demand_eq_ok, lockAuthorityRows_eq_ok,
    ite_eq_error, pure_ne_error, false_or, and_false, exists_false, or_false, Bool.not_eq_true',
    Bool.and_eq_true, beq_iff_eq] at h
  obtain ⟨-, -, state, ⟨s, j, a, l, hA, rfl⟩, -, -, hs, -, ht, -, hu, -, hexec, hrest⟩ := h
  obtain ⟨hactive, hexp⟩ := leaseUsable_ofRows.mp hu
  obtain ⟨hj, ha⟩ : j.status = .running ∧ a.status = .running := hexec
  refine ⟨s, j, a, l, hA, ⟨⟨beq_iff_eq.mp hs, hactive, hexp⟩, timedOut_ofRows.mp ht, hj, ha⟩, ?_⟩
  rcases hrest with hjobs | ⟨jobs', -, hatt | ⟨attempts', -, hlease | ⟨leases', -, hres⟩⟩⟩
  · exact .job (updateOne_eq_error hA.job_mem (by simp [hA.job_id, hj]) hA.job_pk hjobs)
  · exact .attempt (updateOne_eq_error hA.attempt_mem (by simp [hA.attempt_id, ha])
      hA.attempt_pk hatt)
  · exact .lease (updateOne_eq_error hA.lease_mem (by simp [hA.lease_id, hactive]) hA.lease_pk
      hlease)
  · cases result with
    | none => exact absurd hres (by simp [recordResult, pure_ne_error])
    | some ref =>
      simp only [recordResult, insertResultTx, bind_eq_error, demand_forced hf, false_or] at hres
      obtain ⟨-, -, hins⟩ := hres
      rw [← hA.job_id, ← hA.attempt_id] at hins
      exact .result _ (by simp [succeedWrites]) (insertRow_eq_error hins)

/-! ### Failure and cancellation -/

/-- The outcome identity is stored on no attempt: not on the caller's own, and
any other would have been found. -/
theorem outcome_identity_free {o : UUID} (hA : Authority db scope fence s j a l)
    (hown : a.outcomeRequestID ≠ some o)
    (hforeign : rejectForeignOutcomeIdentity db o fence.attemptID = .ok ()) :
    ∀ b ∈ db.attempts.rows, b.outcomeRequestID ≠ some o := by
  intro b hb hbo
  rw [rejectForeignOutcomeIdentity, demand_eq_ok] at hforeign
  cases hf : db.attempts.rows.find? fun b => b.outcomeRequestID == some o with
  | none => exact List.find?_eq_none.mp hf b hb (by simp [hbo])
  | some x =>
    rw [hf] at hforeign
    have hxid : x.id = fence.attemptID := by simpa using hforeign
    have hxa : x = a := db.attempt_eq_of_id (List.mem_of_find?_eq_some hf) hA.attempt_mem
      (hxid.trans hA.attempt_id.symm)
    have hx := List.find?_some hf
    rw [hxa] at hx
    exact hown (by simpa using hx)

/-- What a first failure report needs. -/
structure FailReady (env : Env) (report : FailureReport) (db : DB) (s : WorkerSession) (j : Job)
    (a : JobAttempt) (l : Lease) (d : Decision) : Prop where
  valid : validateFailureReport report = []
  live : Live env.clock.s₀ s l
  inTime : InTime env.clock.s₀ a
  job : j.status = .running
  attempt : a.status = .running
  decision : env.retryPolicy.decide report.class_ a.attemptNumber a.attemptNumber j.maxAttempts
    env.backoff = .ok d
  identity : ∀ b ∈ db.attempts.rows, b.outcomeRequestID ≠ some report.outcomeRequestID

theorem fail_eq_ok {r : OutcomeResult} (h : fail env scope report db = .ok (r, db')) :
    ∃ s j a l, Authority db scope report.fence s j a l ∧
      ((a.outcomeRequestID = some report.outcomeRequestID ∧ db' = db) ∨
        ∃ d, FailReady env report db s j a l d ∧
          r = finalizeResult (failedOutcome report) d env.clock.s₀ j ∧
          (finalizeWrites env scope (failedOutcome report) d env.clock.s₀ j a l).Applied db db') := by
  simp only [fail, bind_eq_ok, validate_eq_ok, demand_eq_ok, lockAuthorityRows_eq_ok, ite_eq_ok,
    pure_eq_ok, Prod.mk.injEq, Bool.not_eq_true', Bool.and_eq_true, beq_iff_eq,
    checked_eq_ok] at h
  obtain ⟨-, hvalid, state, ⟨s, j, a, l, hA, rfl⟩, hrest⟩ := h
  refine ⟨s, j, a, l, hA, ?_⟩
  rcases hrest with ⟨hown, -, -, -, rfl⟩ |
    ⟨hown, _, hforeign, -, hs, -, ht, -, hu, -, hexec, d, hd, hfin⟩
  · exact .inl ⟨hown, rfl⟩
  · obtain ⟨hactive, hexp⟩ := leaseUsable_ofRows.mp hu
    obtain ⟨-, -, -, hr, happ⟩ := finalizeAttempt_eq_ok hA hfin
    exact .inr ⟨d, ⟨hvalid, ⟨beq_iff_eq.mp hs, hactive, hexp⟩, timedOut_ofRows.mp ht, hexec.1,
      hexec.2, hd, outcome_identity_free hA hown hforeign⟩, hr, happ⟩

theorem fail_forced (hf : f.cause ≠ .check) (h : fail env scope report db = .error f) :
    ∃ s j a l d, Authority db scope report.fence s j a l ∧ FailReady env report db s j a l d ∧
      (finalizeWrites env scope (failedOutcome report) d env.clock.s₀ j a l).Refused db f := by
  simp only [fail, replayedOutcome, bind_eq_error, validate_forced hf, demand_forced hf,
    lockAuthorityRows_forced hf, validate_eq_ok, demand_eq_ok, lockAuthorityRows_eq_ok,
    ite_eq_error, pure_ne_error, false_or, and_false, exists_false, Bool.not_eq_true',
    Bool.and_eq_true, beq_iff_eq, checked_eq_ok, checked_forced hf, rejectForeignOutcomeIdentity] at h
  obtain ⟨-, hvalid, state, ⟨s, j, a, l, hA, rfl⟩, hown, -, hforeign, -, hs, -, ht, -, hu, -,
    hexec, d, hd, hfin⟩ := h
  obtain ⟨hactive, hexp⟩ := leaseUsable_ofRows.mp hu
  obtain ⟨hj, ha⟩ : j.status = .running ∧ a.status = .running := hexec
  refine ⟨s, j, a, l, d, hA, ⟨hvalid, ⟨beq_iff_eq.mp hs, hactive, hexp⟩, timedOut_ofRows.mp ht,
    hj, ha, hd, outcome_identity_free hA hown (demand_eq_ok.mpr hforeign)⟩, ?_⟩
  exact finalizeAttempt_forced hf hA (by simp [isExecutingJobStatus, hj])
    (by simp [isExecutingAttemptStatus, ha]) hactive hfin

/-- What a first cancellation acknowledgment needs. -/
structure AckReady (now : Int) (ack : CancelAcknowledgment) (db : DB) (s : WorkerSession) (j : Job)
    (a : JobAttempt) (l : Lease) : Prop where
  live : Live now s l
  job : j.status = .cancelRequested
  attempt : isExecutingAttemptStatus a.status = true
  identity : ∀ b ∈ db.attempts.rows, b.outcomeRequestID ≠ some ack.outcomeRequestID

theorem acknowledgeCancellation_eq_ok {r : OutcomeResult}
    (h : acknowledgeCancellation env scope ack db = .ok (r, db')) :
    ∃ s j a l, Authority db scope ack.fence s j a l ∧
      ((a.outcomeRequestID = some ack.outcomeRequestID ∧ db' = db) ∨
        (AckReady env.clock.s₀ ack db s j a l ∧
          r = ⟨j.id, .canceled, .canceled, none, none, none, false⟩ ∧
          (cancellationWrites (some ack.outcomeRequestID) .released env.clock.s₀ j a l).Applied
            db db')) := by
  simp only [acknowledgeCancellation, bind_eq_ok, validate_eq_ok, demand_eq_ok,
    lockAuthorityRows_eq_ok, ite_eq_ok, pure_eq_ok, Prod.mk.injEq, Bool.and_eq_true,
    beq_iff_eq] at h
  obtain ⟨-, -, state, ⟨s, j, a, l, hA, rfl⟩, hrest⟩ := h
  refine ⟨s, j, a, l, hA, ?_⟩
  rcases hrest with ⟨hown, -, -, -, rfl⟩ | ⟨hown, _, hforeign, -, hs, -, hu, -, hexec, hfin⟩
  · exact .inl ⟨hown, rfl⟩
  · obtain ⟨hactive, hexp⟩ := leaseUsable_ofRows.mp hu
    obtain ⟨-, -, -, hr, happ⟩ := finalizeCancellation_eq_ok hA hfin
    exact .inr ⟨⟨⟨beq_iff_eq.mp hs, hactive, hexp⟩, hexec.1, hexec.2,
      outcome_identity_free hA hown hforeign⟩, hr, happ⟩

theorem acknowledgeCancellation_forced (hf : f.cause ≠ .check)
    (h : acknowledgeCancellation env scope ack db = .error f) :
    ∃ s j a l, Authority db scope ack.fence s j a l ∧ AckReady env.clock.s₀ ack db s j a l ∧
      (cancellationWrites (some ack.outcomeRequestID) .released env.clock.s₀ j a l).Refused
        db f := by
  simp only [acknowledgeCancellation, bind_eq_error, validate_forced hf, demand_forced hf,
    lockAuthorityRows_forced hf, validate_eq_ok, demand_eq_ok, lockAuthorityRows_eq_ok,
    ite_eq_error, pure_ne_error, false_or, and_false, exists_false, Bool.and_eq_true,
    beq_iff_eq, rejectForeignOutcomeIdentity] at h
  obtain ⟨-, -, state, ⟨s, j, a, l, hA, rfl⟩, hown, -, hforeign, -, hs, -, hu, -, hexec, hfin⟩ := h
  obtain ⟨hactive, hexp⟩ := leaseUsable_ofRows.mp hu
  refine ⟨s, j, a, l, hA, ⟨⟨beq_iff_eq.mp hs, hactive, hexp⟩, hexec.1, hexec.2,
    outcome_identity_free hA hown (demand_eq_ok.mpr hforeign)⟩, ?_⟩
  exact finalizeCancellation_forced hA hexec.1 hexec.2 hactive hfin

end Spec

end TaskForge
