/-
How an attempt ends: `finalizeAttempt` and `finalizeCancellation`
(`internal/workers/outcome.go`), with the two inserts they share with other
transactions, the outbox notification and the dead-letter entry.

Each `SET` list of the source is a function on rows, named after what it records.
The transactions below apply it through an `UPDATE`, and the results about them
say which rows it was applied to. So the question *what did this transaction
write* has one answer, a `Writes`, and the two readings of a transaction are
kept apart: `…_eq_ok` says what it found and wrote when it went through, and
`…_forced` says which statement can have stopped it when the code did not.
-/
import TaskForge.Fence
import TaskForge.CaseFile

open Relational Fallible

namespace TaskForge

/-! ## Notifications and dead letters -/

/-- `outbox.EventWorkAvailable` -/
def eventWorkAvailable : String := "work.available"

/-- `outbox.WorkAvailableSchemaVersion` -/
def workAvailableSchemaVersion : Int := 1

/-- The row `InsertWorkAvailableTx` writes. The two trace columns move together,
and an empty traceparent stores neither. -/
def workAvailableEvent (id : UUID) (start : Int) (jobID : UUID) (queue : String) (generation : ℕ)
    (trace : Option TraceContext) : OutboxEvent where
  id := id
  eventType := eventWorkAvailable
  schemaVersion := workAvailableSchemaVersion
  payload := ⟨queue, jobID⟩
  status := .pending
  attempts := 0
  availableAt := start
  claimedAt := none
  publishedAt := none
  lastError := none
  createdAt := start
  jobID := some jobID
  notificationGeneration := some generation
  traceparent := (trace.filter fun t => t.traceparent != "").map TraceContext.traceparent
  tracestate := ((trace.filter fun t => t.traceparent != "").filter
    fun t => t.tracestate != "").map TraceContext.tracestate

/-- `outbox.InsertWorkAvailableTx` -/
def insertWorkAvailableTx (t : Table outboxEvents) (id : UUID) (start : Int) (jobID : UUID)
    (queue : String) (generation : ℕ) (trace : Option TraceContext) : Tx (Table outboxEvents) := do
  demand (decide (1 ≤ generation))
    (.failed "work.available notification generation must be at least 1")
  insertRow .outboxEvents t (workAvailableEvent id start jobID queue generation trace)
    (reported "insert outbox event")

/-- `lifecycle.InsertDLQEntryTx` -/
def insertDLQEntryTx (t : Table dlqEntries) (id : UUID) (scope queue : String) (jobID : UUID)
    (terminalAttemptID : Option UUID) (reason : Option DLQReason) (createdAt : Int) :
    Tx (Table dlqEntries) := do
  let reason ← fetch reason (.failed "invalid dead-letter reason")
  insertRow .dlqEntries t ⟨id, scope, queue, jobID, terminalAttemptID, reason, createdAt⟩
    (onUnique .dlqEntryExists "insert dead-letter entry")

theorem insertWorkAvailableTx_eq_ok {t t' : Table outboxEvents} {id : UUID} {start : Int}
    {jobID : UUID} {queue : String} {generation : ℕ} {trace : Option TraceContext}
    (h : insertWorkAvailableTx t id start jobID queue generation trace = .ok t') :
    1 ≤ generation ∧
      t'.rows = t.rows ++ [workAvailableEvent id start jobID queue generation trace] := by
  simp only [insertWorkAvailableTx, bind_eq_ok, demand_eq_ok, decide_eq_true_eq] at h
  obtain ⟨-, hgen, hins⟩ := h
  exact ⟨hgen, insertRow_eq_ok hins⟩

/-! ## Row updates -/

/-- `attemptOutcome` -/
structure AttemptOutcome where
  status : AttemptStatus
  class_ : FailureClass
  errorCode : String
  errorMessage : String
  outcomeRequestID : Option UUID
  leaseStatus : LeaseStatus
deriving DecidableEq, Repr

/-- `nullableString` -/
def nullableString (v : String) : Option String := if v = "" then none else some v

/-- `derefString` -/
def derefString (v : Option String) : String := v.getD ""

theorem derefString_nullableString (v : String) : derefString (nullableString v) = v := by
  unfold derefString nullableString
  split
  · next h => rw [h]; rfl
  · rfl

/-- The whole-millisecond delay that is stored. -/
def storedMillis (d : Decision) : Int := d.delay / millisecond

/-- The instant a retry becomes eligible, as PostgreSQL stores it. -/
def storedRetryAt (d : Decision) (now : Int) : Int :=
  storeTime (goTime now + storedMillis d * millisecond)

/-- `finalizeAttempt`'s update of the attempt. -/
def finalizedAttempt (o : AttemptOutcome) (d : Decision) (now : Int) (a : JobAttempt) :
    JobAttempt :=
  { a with
    status := o.status
    finishedAt := some now
    failureClass := some o.class_
    errorCode := nullableString o.errorCode
    errorMessage := nullableString o.errorMessage
    outcomeRequestID := o.outcomeRequestID.or a.outcomeRequestID
    retryDelayMs := if d.retry then some (storedMillis d) else none
    retryAt := if d.retry then some (storedRetryAt d now) else none }

/-- `finalizeCancellation`'s update of the attempt. -/
def canceledAttempt (outcomeRequestID : Option UUID) (now : Int) (a : JobAttempt) : JobAttempt :=
  { a with
    status := .canceled
    finishedAt := some now
    failureClass := some .canceled
    errorCode := some codeCanceled
    errorMessage := some messageCanceled
    outcomeRequestID := outcomeRequestID.or a.outcomeRequestID }

/-- The release of a lease. -/
def closedLease (status : LeaseStatus) (now : Int) (l : Lease) : Lease :=
  { l with status := status, releasedAt := some now }

/-- `setJobStatus`'s update. A zero `availableAt` leaves the column alone. -/
def movedJob (status : JobStatus) (availableAt now : Int) (j : Job) : Job :=
  { j with
    status := status
    updatedAt := now
    availableAt := if availableAt = zeroTime then j.availableAt else availableAt }

/-- `requeueJob`'s update. -/
def requeuedJob (now : Int) (j : Job) : Job :=
  { j with
    status := .queued
    availableAt := now
    updatedAt := now
    notificationGeneration := j.notificationGeneration + 1
    lastNotificationAt := some now }

/-- `finalizeCancellation`'s update of the job. -/
def canceledJob (now : Int) (j : Job) : Job := { j with status := .canceled, updatedAt := now }

/-! ## The transactions' common tail -/

/-- `setJobStatus` -/
def setJobStatus (t : Table jobs) (jobID : UUID) (status : JobStatus) (availableAt now : Int) :
    Tx (Table jobs) :=
  updateOne .jobs t (fun j => j.id == jobID && isExecutingJobStatus j.status)
    (movedJob status availableAt now) (.stateConflict "job changed during outcome")
    (reported "transition job")

/-- `requeueJob`: the new generation, and the table. -/
def requeueJob (t : Table jobs) (jobID : UUID) (now : Int) : Tx (ℕ × Table jobs) := do
  let row ← updateReturning .jobs t (fun j => j.id == jobID && isExecutingJobStatus j.status)
    (requeuedJob now) (.stateConflict "job changed during requeue") (reported "requeue job")
  pure (row.1.notificationGeneration, row.2)

/-- `finalizeAttempt` -/
def finalizeAttempt (env : Env) (db : DB) (state : FenceState) (fence : Fence)
    (outcome : AttemptOutcome) (decision : Decision) : Tx (OutcomeResult × DB) := do
  let row ← updateReturning .jobAttempts db.attempts
    (fun a => a.id == fence.attemptID && isExecutingAttemptStatus a.status)
    (finalizedAttempt outcome decision state.serverNow)
    (.stateConflict "attempt changed during outcome")
    (onUnique .outcomeConflict "record attempt outcome")
  let leases ← updateOne .leases db.leases (fun l => l.id == fence.leaseID && l.status == .active)
    (closedLease outcome.leaseStatus state.serverNow)
    (.stateConflict "lease changed during outcome") (reported "release lease after outcome")
  if decision.retry then
    -- The stored columns are returned, so a replay can repeat this answer.
    let retryDelay := row.1.retryDelayMs.map (· * millisecond)
    if 0 < storedMillis decision then do
      let jobs ← setJobStatus db.jobs fence.jobID .retryWait (row.1.retryAt.getD zeroTime)
        state.serverNow
      pure (⟨fence.jobID, .retryWait, outcome.status, row.1.retryAt, retryDelay, none, false⟩,
        { db with jobs := jobs, attempts := row.2, leases := leases })
    else do
      let (generation, jobs) ← requeueJob db.jobs fence.jobID state.serverNow
      let outbox ← insertWorkAvailableTx db.outbox env.id₁ env.clock.start fence.jobID state.queue
        generation none
      pure (⟨fence.jobID, .queued, outcome.status, row.1.retryAt, retryDelay, none, false⟩,
        { db with jobs := jobs, attempts := row.2, leases := leases, outbox := outbox })
  else do
    let jobs ← setJobStatus db.jobs fence.jobID .deadLettered zeroTime state.serverNow
    let dlq ← insertDLQEntryTx db.dlqEntries env.id₁ state.scope state.queue fence.jobID
      (some fence.attemptID) decision.deadLetterReason state.serverNow
    pure (⟨fence.jobID, .deadLettered, outcome.status, none, none, decision.deadLetterReason,
      false⟩, { db with jobs := jobs, attempts := row.2, leases := leases, dlqEntries := dlq })

/-- `finalizeCancellation` -/
def finalizeCancellation (db : DB) (state : FenceState) (fence : Fence)
    (outcomeRequestID : Option UUID) (leaseStatus : LeaseStatus) : Tx (OutcomeResult × DB) := do
  let attempts ← updateOne .jobAttempts db.attempts
    (fun a => a.id == fence.attemptID && isExecutingAttemptStatus a.status)
    (canceledAttempt outcomeRequestID state.serverNow)
    (.stateConflict "attempt changed during cancellation")
    (onUnique .outcomeConflict "cancel attempt")
  let leases ← updateOne .leases db.leases (fun l => l.id == fence.leaseID && l.status == .active)
    (closedLease leaseStatus state.serverNow)
    (.stateConflict "lease changed during cancellation") (reported "release lease after cancellation")
  let jobs ← updateOne .jobs db.jobs (fun j => j.id == fence.jobID && j.status == .cancelRequested)
    (canceledJob state.serverNow) (.stateConflict "job changed during cancellation")
    (reported "finalize job cancellation")
  pure (⟨fence.jobID, .canceled, .canceled, none, none, none, false⟩,
    { db with jobs := jobs, attempts := attempts, leases := leases })

/-! ## What they write -/

/-- The job row after a finalized attempt. -/
def finalizedJob (d : Decision) (now : Int) (j : Job) : Job :=
  if d.retry then
    if 0 < storedMillis d then movedJob .retryWait (storedRetryAt d now) now j else requeuedJob now j
  else movedJob .deadLettered zeroTime now j

/-- What `finalizeAttempt` writes. -/
def finalizeWrites (env : Env) (scope : String) (o : AttemptOutcome) (d : Decision) (now : Int)
    (j : Job) (a : JobAttempt) (l : Lease) : Writes where
  job := .replace j (finalizedJob d now j)
  attempt := .replace a (finalizedAttempt o d now a)
  lease := .replace l (closedLease o.leaseStatus now l)
  events := if d.retry ∧ ¬ 0 < storedMillis d then
      [workAvailableEvent env.id₁ env.clock.start j.id l.queue (j.notificationGeneration + 1) none]
    else []
  dlq := if d.retry then [] else
    (d.deadLetterReason.map fun reason =>
      DLQEntry.mk env.id₁ scope l.queue j.id (some a.id) reason now).toList

/-- What `finalizeAttempt` answers. -/
def finalizeResult (o : AttemptOutcome) (d : Decision) (now : Int) (j : Job) : OutcomeResult where
  jobID := j.id
  jobStatus := (finalizedJob d now j).status
  attemptStatus := o.status
  retryAt := if d.retry then some (storedRetryAt d now) else none
  retryDelay := if d.retry then some (storedMillis d * millisecond) else none
  deadLetterReason := if d.retry then none else d.deadLetterReason
  replayed := false

/-- What `finalizeCancellation` writes. -/
def cancellationWrites (outcomeRequestID : Option UUID) (leaseStatus : LeaseStatus) (now : Int)
    (j : Job) (a : JobAttempt) (l : Lease) : Writes where
  job := .replace j (canceledJob now j)
  attempt := .replace a (canceledAttempt outcomeRequestID now a)
  lease := .replace l (closedLease leaseStatus now l)

section Spec

variable {env : Env} {db db' : DB} {scope : String} {fence : Fence} {s : WorkerSession} {j : Job}
  {a : JobAttempt} {l : Lease} {now : Int} {r : OutcomeResult} {f : Failure}
variable {t : Table jobs} {status : JobStatus} {availableAt : Int} {o : AttemptOutcome}
  {d : Decision} {ls : LeaseStatus}

/-! A statement keyed by the fence's id selects the locked row or nothing. -/

theorem Authority.job_pk (h : Authority db scope fence s j a l) {q : Job → Bool} :
    ∀ x ∈ db.jobs.rows, (x.id == fence.jobID && q x) = true → x = j := by
  intro x hx hp
  rw [Bool.and_eq_true, beq_iff_eq] at hp
  exact db.job_eq_of_id hx h.job_mem (hp.1.trans h.job_id.symm)

theorem Authority.attempt_pk (h : Authority db scope fence s j a l) {q : JobAttempt → Bool} :
    ∀ x ∈ db.attempts.rows, (x.id == fence.attemptID && q x) = true → x = a := by
  intro x hx hp
  rw [Bool.and_eq_true, beq_iff_eq] at hp
  exact db.attempt_eq_of_id hx h.attempt_mem (hp.1.trans h.attempt_id.symm)

theorem Authority.lease_pk (h : Authority db scope fence s j a l) {q : Lease → Bool} :
    ∀ x ∈ db.leases.rows, (x.id == fence.leaseID && q x) = true → x = l := by
  intro x hx hp
  rw [Bool.and_eq_true, beq_iff_eq] at hp
  exact db.lease_eq_of_id hx h.lease_mem (hp.1.trans h.lease_id.symm)

theorem setJobStatus_eq_ok (h : Authority db scope fence s j a l)
    (hset : setJobStatus db.jobs fence.jobID status availableAt now = .ok t) :
    isExecutingJobStatus j.status = true ∧
      t.rows = replaceRow j (movedJob status availableAt now j) db.jobs.rows := by
  obtain ⟨hp, hrows⟩ := updateOne_eq_ok h.job_pk hset
  rw [Bool.and_eq_true] at hp
  exact ⟨hp.2, hrows⟩

theorem requeueJob_eq_ok (h : Authority db scope fence s j a l) {generation : ℕ}
    (hreq : requeueJob db.jobs fence.jobID now = .ok (generation, t)) :
    isExecutingJobStatus j.status = true ∧ generation = j.notificationGeneration + 1 ∧
      t.rows = replaceRow j (requeuedJob now j) db.jobs.rows := by
  simp only [requeueJob, bind_eq_ok, pure_eq_ok, Prod.mk.injEq] at hreq
  obtain ⟨⟨new, t'⟩, hupd, rfl, rfl⟩ := hreq
  obtain ⟨hp, rfl, hrows⟩ := updateReturning_eq_ok h.job_pk hupd
  rw [Bool.and_eq_true] at hp
  exact ⟨hp.2, rfl, hrows⟩

theorem finalizeAttempt_eq_ok (h : Authority db scope fence s j a l)
    (hfin : finalizeAttempt env db (FenceState.ofRows scope s j a l now) fence o d
      = .ok (r, db')) :
    isExecutingJobStatus j.status = true ∧ isExecutingAttemptStatus a.status = true ∧
      l.status = .active ∧ r = finalizeResult o d now j ∧
      (finalizeWrites env scope o d now j a l).Applied db db' := by
  simp only [finalizeAttempt, bind_eq_ok, ite_eq_ok, pure_eq_ok, Prod.mk.injEq] at hfin
  obtain ⟨⟨a', attempts'⟩, hatt, leases', hlease, hrest⟩ := hfin
  obtain ⟨hpa, rfl, harows⟩ := updateReturning_eq_ok h.attempt_pk hatt
  obtain ⟨hpl, hlrows⟩ := updateOne_eq_ok h.lease_pk hlease
  rw [Bool.and_eq_true] at hpa hpl
  have hactive : l.status = .active := by simpa using hpl.2
  -- The three ways a finalized attempt moves its job.
  rcases hrest with ⟨hretry, ⟨hpos, jobs', hjobs, rfl, rfl⟩ |
    ⟨hzero, ⟨generation, jobs'⟩, hreq, outbox', hout, rfl, rfl⟩⟩ | ⟨hdead, jobs', hjobs, dlq', hdlq, rfl, rfl⟩
  · have hat : (finalizedAttempt o d now a).retryAt = some (storedRetryAt d now) := if_pos hretry
    rw [show (FenceState.ofRows scope s j a l now).serverNow = now from rfl, hat] at hjobs
    obtain ⟨hexec, hjrows⟩ := setJobStatus_eq_ok h hjobs
    refine ⟨hexec, hpa.2, hactive, ?_, ?_⟩
    · simp [finalizeResult, finalizedJob, finalizedAttempt, FenceState.ofRows, movedJob, hretry,
        hpos, h.job_id]
    · constructor <;> simp [finalizeWrites, finalizedJob, RowWrite.apply, FenceState.ofRows,
        hretry, hpos, harows, hlrows, hjrows]
  · obtain ⟨hexec, rfl, hjrows⟩ := requeueJob_eq_ok h hreq
    obtain ⟨-, horows⟩ := insertWorkAvailableTx_eq_ok hout
    refine ⟨hexec, hpa.2, hactive, ?_, ?_⟩
    · simp [finalizeResult, finalizedJob, finalizedAttempt, FenceState.ofRows, requeuedJob, hretry,
        hzero, h.job_id]
    · constructor <;> simp [finalizeWrites, finalizedJob, RowWrite.apply, FenceState.ofRows,
        hretry, hzero, harows, hlrows, hjrows, horows, h.job_id]
  · obtain ⟨hexec, hjrows⟩ := setJobStatus_eq_ok h hjobs
    simp only [insertDLQEntryTx, bind_eq_ok, fetch_eq_ok] at hdlq
    obtain ⟨reason, hreason, hins⟩ := hdlq
    have hdrows := insertRow_eq_ok hins
    refine ⟨hexec, hpa.2, hactive, ?_, ?_⟩
    · simp [finalizeResult, finalizedJob, movedJob, hdead, h.job_id]
    · constructor <;> simp [finalizeWrites, finalizedJob, RowWrite.apply, FenceState.ofRows,
        hdead, hreason, harows, hlrows, hjrows, hdrows, h.job_id, h.attempt_id]

theorem finalizeCancellation_eq_ok {o : Option UUID} (h : Authority db scope fence s j a l)
    (hfin : finalizeCancellation db (FenceState.ofRows scope s j a l now) fence o ls
      = .ok (r, db')) :
    j.status = .cancelRequested ∧ isExecutingAttemptStatus a.status = true ∧
      l.status = .active ∧ r = ⟨j.id, .canceled, .canceled, none, none, none, false⟩ ∧
      (cancellationWrites o ls now j a l).Applied db db' := by
  simp only [finalizeCancellation, bind_eq_ok, pure_eq_ok, Prod.mk.injEq] at hfin
  obtain ⟨attempts', hatt, leases', hlease, jobs', hjobs, rfl, rfl⟩ := hfin
  obtain ⟨hpa, harows⟩ := updateOne_eq_ok h.attempt_pk hatt
  obtain ⟨hpl, hlrows⟩ := updateOne_eq_ok h.lease_pk hlease
  obtain ⟨hpj, hjrows⟩ := updateOne_eq_ok h.job_pk hjobs
  rw [Bool.and_eq_true] at hpa hpl hpj
  refine ⟨by simpa using hpj.2, hpa.2, by simpa using hpl.2, by rw [h.job_id], ?_⟩
  constructor <;> simp [cancellationWrites, RowWrite.apply, FenceState.ofRows, harows, hlrows,
    hjrows]

/-! ## What can stop them -/

theorem setJobStatus_forced (h : Authority db scope fence s j a l)
    (hj : isExecutingJobStatus j.status = true)
    (hset : setJobStatus db.jobs fence.jobID status availableAt now = .error f) :
    UpdateRefused .jobs db.jobs j (movedJob status availableAt now j) f :=
  updateOne_eq_error h.job_mem (by simp [h.job_id, hj]) h.job_pk hset

theorem requeueJob_forced (h : Authority db scope fence s j a l)
    (hj : isExecutingJobStatus j.status = true)
    (hreq : requeueJob db.jobs fence.jobID now = .error f) :
    UpdateRefused .jobs db.jobs j (requeuedJob now j) f := by
  simp only [requeueJob, bind_eq_error, pure_ne_error, and_false, exists_false, or_false] at hreq
  exact updateReturning_eq_error h.job_mem (by simp [h.job_id, hj]) h.job_pk hreq

/-- On executing rows, `finalizeAttempt` stops only where a row is refused: no
`UPDATE` misses its row. -/
theorem finalizeAttempt_forced (hf : f.cause ≠ .check) (h : Authority db scope fence s j a l)
    (hj : isExecutingJobStatus j.status = true) (ha : isExecutingAttemptStatus a.status = true)
    (hl : l.status = .active)
    (hfin : finalizeAttempt env db (FenceState.ofRows scope s j a l now) fence o d = .error f) :
    (finalizeWrites env scope o d now j a l).Refused db f := by
  simp only [finalizeAttempt, bind_eq_error, ite_eq_error, pure_ne_error, and_false, exists_false,
    or_false] at hfin
  rcases hfin with hatt | ⟨⟨a', attempts'⟩, hatt, hlease | ⟨leases', hlease, hrest⟩⟩
  · exact .attempt (updateReturning_eq_error h.attempt_mem (by simp [h.attempt_id, ha])
      h.attempt_pk hatt)
  · exact .lease (updateOne_eq_error h.lease_mem (by simp [h.lease_id, hl]) h.lease_pk hlease)
  · obtain ⟨-, rfl, -⟩ := updateReturning_eq_ok h.attempt_pk hatt
    rcases hrest with ⟨hretry, ⟨hpos, hjobs⟩ | ⟨hzero, hjobs | ⟨⟨generation, jobs'⟩, hreq, hout⟩⟩⟩ |
      ⟨hdead, hjobs | ⟨jobs', hjobs, hdlq⟩⟩
    · have hat : (finalizedAttempt o d now a).retryAt = some (storedRetryAt d now) := if_pos hretry
      rw [show (FenceState.ofRows scope s j a l now).serverNow = now from rfl, hat] at hjobs
      refine .job ?_
      simp only [finalizeWrites, finalizedJob, hretry, hpos, if_true]
      exact setJobStatus_forced h hj hjobs
    · refine .job ?_
      simp only [finalizeWrites, finalizedJob, hretry, hzero, if_true, if_false]
      exact requeueJob_forced h hj hjobs
    · obtain ⟨-, rfl, -⟩ := requeueJob_eq_ok h hreq
      simp only [insertWorkAvailableTx, bind_eq_error, demand_forced hf, false_or] at hout
      obtain ⟨-, -, hins⟩ := hout
      rw [← h.job_id] at hins
      exact .event _ (by simp [finalizeWrites, FenceState.ofRows, hretry, hzero]) (insertRow_eq_error hins)
    · refine .job ?_
      simp only [finalizeWrites, finalizedJob, hdead, Bool.false_eq_true, if_false]
      exact setJobStatus_forced h hj hjobs
    · simp only [insertDLQEntryTx, bind_eq_error, fetch_forced hf, fetch_eq_ok, false_or] at hdlq
      obtain ⟨reason, hreason, hins⟩ := hdlq
      rw [← h.job_id, ← h.attempt_id] at hins
      exact .dlq _ (by simp [finalizeWrites, FenceState.ofRows, hdead, hreason])
        (insertRow_eq_error hins)

theorem finalizeCancellation_forced {o : Option UUID} (h : Authority db scope fence s j a l)
    (hj : j.status = .cancelRequested) (ha : isExecutingAttemptStatus a.status = true)
    (hl : l.status = .active)
    (hfin : finalizeCancellation db (FenceState.ofRows scope s j a l now) fence o ls = .error f) :
    (cancellationWrites o ls now j a l).Refused db f := by
  simp only [finalizeCancellation, bind_eq_error, pure_ne_error, and_false, exists_false,
    or_false] at hfin
  rcases hfin with hatt | ⟨attempts', -, hlease | ⟨leases', -, hjobs⟩⟩
  · exact .attempt (updateOne_eq_error h.attempt_mem (by simp [h.attempt_id, ha]) h.attempt_pk
      hatt)
  · exact .lease (updateOne_eq_error h.lease_mem (by simp [h.lease_id, hl]) h.lease_pk hlease)
  · exact .job (updateOne_eq_error h.job_mem (by simp [h.job_id, hj]) h.job_pk hjobs)

end Spec

end TaskForge
