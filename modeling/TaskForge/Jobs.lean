/-
The client's and the scheduler's side of a job: `Submit`, `Replay`,
`RequestCancel`, `promoteDueJob` and `renotifyStrandedJob` (`internal/jobs`).

These five write the job's row and its notifications and never an attempt or a
lease. Two of them make jobs. Both guard the birth with an identity whose primary
key decides: the loser's transaction is rolled back and the winner's row is
read. `Submit`'s answer carries the caller's own instant, in nanoseconds, while
every later read returns the stored microseconds, so an answer is a `JobView` in
Go's time and a row is a `Job` in PostgreSQL's.
-/
import TaskForge.Claim

open Relational Fallible

namespace TaskForge

/-! ## Answers -/

/-- `jobs.Job`. Instants are Go's, in nanoseconds. -/
structure JobView where
  id : UUID
  scope : String
  queue : String
  type_ : String
  payload : String
  status : JobStatus
  priority : Int
  maxAttempts : Int
  timeoutSeconds : Int
  requiredCapabilities : List String
  scheduledAt : Option Int
  availableAt : Int
  cancelRequestedAt : Option Int
  replayedFromJobID : Option UUID
  createdAt : Int
  updatedAt : Int
deriving DecidableEq, Repr

/-- `scanJob` -/
def scanJob (j : Job) : JobView where
  id := j.id
  scope := j.scope
  queue := j.queue
  type_ := j.jobType
  payload := j.payload
  status := j.status
  priority := j.priority
  maxAttempts := j.maxAttempts
  timeoutSeconds := j.timeoutSeconds
  requiredCapabilities := j.requiredCapabilities
  scheduledAt := j.scheduledAt.map goTime
  availableAt := goTime j.availableAt
  cancelRequestedAt := j.cancelRequestedAt.map goTime
  replayedFromJobID := j.replayedFromJobID
  createdAt := goTime j.createdAt
  updatedAt := goTime j.updatedAt

/-- `jobs.SubmitResult` -/
structure SubmitResult where
  job : JobView
  replayed : Bool
deriving DecidableEq, Repr

/-- `jobs.ReplayResult` -/
structure ReplayResult where
  originalJobID : UUID
  replacement : JobView
  replayed : Bool
deriving DecidableEq, Repr

/-! ## Reads -/

/-- The job of a scope. -/
def jobInScope (db : DB) (scope : String) (id : UUID) : Option Job :=
  db.jobs.rows.find? fun j => j.id == id && j.scope == scope

/-- `getByID` -/
def getByID (db : DB) (scope : String) (id : UUID) : Tx JobView :=
  fetch ((jobInScope db scope id).map scanJob) .jobNotFound

/-- `SELECT name FROM queues … FOR UPDATE` -/
def lockQueue (db : DB) (name context : String) : Tx Queue :=
  fetch (db.queues.rows.find? fun q => q.name == name) (.failed context)

/-- `resolveExisting` -/
def resolveExisting (db : DB) (scope key fingerprint : String) : Tx SubmitResult := do
  let record ← fetch (db.idempotency.rows.find? fun r => r.scope == scope && r.idempotencyKey == key)
    (.failed "idempotency record disappeared during submission; retry the request")
  demand (record.requestFingerprint == fingerprint) .idempotencyConflict
  let job ← getByID db scope record.jobID
  pure ⟨job, true⟩

/-- `resolveExistingReplay` -/
def resolveExistingReplay (db : DB) (scope : String) (originalJobID : UUID) (key : String) :
    Tx ReplayResult := do
  let record ← fetch (db.dlqReplays.rows.find? fun r =>
      r.scope == scope && r.originalJobID == originalJobID && r.idempotencyKey == key)
    (.failed "replay record disappeared during replay; retry the request")
  let job ← getByID db scope record.replacementJobID
  pure ⟨originalJobID, job, true⟩

/-- `HasPendingWorkAvailableTx` -/
def hasPendingWorkAvailable (db : DB) (jobID : UUID) (generation : ℕ) : Bool :=
  db.outbox.rows.any fun e =>
    e.jobID == some jobID && e.notificationGeneration == some generation && e.status == .pending

/-! ## Submission -/

/-- The requested instant is still ahead of the database's clock. -/
def isDelayed (now : Int) (req : NormalizedRequest) : Bool :=
  req.scheduledAt.any fun t => decide (goTime now < t)

/-- The row `Submit` inserts. -/
def submittedJob (env : Env) (scope : String) (req : NormalizedRequest) : Job where
  id := env.id₁
  scope := scope
  queue := req.queue
  jobType := req.type_
  payload := req.payload
  status := if isDelayed env.clock.s₀ req then .pending else .queued
  priority := req.priority
  maxAttempts := req.maxAttempts
  timeoutSeconds := req.timeoutSeconds
  requiredCapabilities := req.requiredCapabilities
  scheduledAt := req.scheduledAt.map storeTime
  availableAt :=
    if isDelayed env.clock.s₀ req then storeTime (req.scheduledAt.getD 0) else env.clock.s₀
  cancelRequestedAt := none
  replayedFromJobID := none
  notificationGeneration := if isDelayed env.clock.s₀ req then 0 else 1
  lastNotificationAt := if isDelayed env.clock.s₀ req then none else some env.clock.s₀
  createdAt := env.clock.start
  updatedAt := env.clock.start

/-- The job `Submit` answers with: the row, with the caller's own instants. -/
def submittedView (env : Env) (scope : String) (req : NormalizedRequest) : JobView :=
  { scanJob (submittedJob env scope req) with
    scheduledAt := req.scheduledAt
    availableAt :=
      if isDelayed env.clock.s₀ req then req.scheduledAt.getD 0 else goTime env.clock.s₀ }

/-- The notification of an immediate submission. -/
def notifySubmitted (env : Env) (t : Table outboxEvents) (job : Job) (trace : TraceContext) :
    Tx (Table outboxEvents) :=
  if job.status = .queued then
    insertWorkAvailableTx t env.id₂ env.clock.start job.id job.queue job.notificationGeneration
      (some trace)
  else pure t

/-- `Store.Submit`. `trace` is what `telemetry.InjectTraceContext` returns. -/
def submit (env : Env) (scope key : String) (req : NormalizedRequest) (trace : TraceContext)
    (db : DB) : Tx (SubmitResult × DB) := do
  demand (db.queues.rows.any fun q => q.name == req.queue) .unknownQueue
  let job := submittedJob env scope req
  let jobs ← insertRow .jobs db.jobs job (reported "insert job")
  if db.idempotency.rows.any fun r => r.scope == scope && r.idempotencyKey == key then do
    -- `ON CONFLICT DO NOTHING` returned no row: roll back and defer to the winner.
    let result ← resolveExisting db scope key (env.fingerprint req)
    pure (result, db)
  else do
    let idempotency ← insertRow .idempotencyRecords db.idempotency
      ⟨scope, key, env.fingerprint req, job.id, env.clock.start⟩
      (reported "insert idempotency record")
    let outbox ← notifySubmitted env db.outbox job trace
    pure (⟨submittedView env scope req, false⟩,
      { db with jobs := jobs, idempotency := idempotency, outbox := outbox })

/-! ## Replay of a dead letter -/

/-- The row `Replay` inserts. -/
def replacementJob (env : Env) (scope : String) (original : Job) : Job where
  id := env.id₁
  scope := scope
  queue := original.queue
  jobType := original.jobType
  payload := original.payload
  status := .queued
  priority := original.priority
  maxAttempts := original.maxAttempts
  timeoutSeconds := original.timeoutSeconds
  requiredCapabilities := original.requiredCapabilities
  scheduledAt := none
  availableAt := env.clock.s₀
  cancelRequestedAt := none
  replayedFromJobID := some original.id
  notificationGeneration := 1
  lastNotificationAt := some env.clock.s₀
  createdAt := env.clock.s₀
  updatedAt := env.clock.s₀

/-- `Store.Replay` -/
def replay (env : Env) (scope : String) (originalJobID : UUID) (key : String) (db : DB) :
    Tx (ReplayResult × DB) := do
  let original ← fetch (jobInScope db scope originalJobID) .jobNotFound
  let _ ← lockQueue db original.queue "lock queue for replay"
  demand (original.status == .deadLettered) .notDeadLettered
  demand (db.dlqEntries.rows.any fun d => d.jobID == originalJobID) .notDeadLettered
  let replacement := replacementJob env scope original
  let jobs ← insertRow .jobs db.jobs replacement (reported "insert replacement job")
  if db.dlqReplays.rows.any fun r =>
      r.scope == scope && r.originalJobID == originalJobID && r.idempotencyKey == key then do
    let result ← resolveExistingReplay db scope originalJobID key
    pure (result, db)
  else do
    let replays ← insertRow .dlqReplays db.dlqReplays
      ⟨scope, originalJobID, key, replacement.id, env.clock.start⟩
      (reported "insert replay identity")
    let outbox ← insertWorkAvailableTx db.outbox env.id₂ env.clock.start replacement.id
      replacement.queue 1 none
    pure (⟨originalJobID, scanJob replacement, false⟩,
      { db with jobs := jobs, dlqReplays := replays, outbox := outbox })

/-! ## Cancellation -/

/-- Where a cancellation takes a job; none from a status that is not cancelable. -/
def cancelTarget : JobStatus → Option JobStatus
  | .pending | .queued | .retryWait => some .canceled
  | .leased | .running => some .cancelRequested
  | _ => none

/-- `RequestCancel`'s update. -/
def cancelledJob (target : JobStatus) (now : Int) (j : Job) : Job :=
  { j with status := target, cancelRequestedAt := some now, updatedAt := now }

/-- `Store.RequestCancel` -/
def requestCancel (env : Env) (scope : String) (jobID : UUID) (db : DB) :
    Tx (CancelResult × DB) := do
  let job ← fetch (jobInScope db scope jobID) .jobNotFound
  let _ ← lockQueue db job.queue "lock queue for cancellation"
  if job.status = .cancelRequested ∨ job.status = .canceled then
    pure (⟨jobID, job.status, job.cancelRequestedAt, true⟩, db)
  else do
    let target ← fetch (cancelTarget job.status) .jobNotCancelable
    let jobs ← updateOne .jobs db.jobs
      (fun j => j.id == jobID && (j.scope == scope && j.status == job.status))
      (cancelledJob target env.clock.s₀) .jobNotCancelable (reported "cancel job")
    pure (⟨jobID, target, some env.clock.s₀, false⟩, { db with jobs := jobs })

/-! ## The scheduler -/

/-- `promoteDueJob`'s update. -/
def promotedJob (now : Int) (j : Job) : Job :=
  { j with
    status := .queued
    updatedAt := now
    notificationGeneration := j.notificationGeneration + 1
    lastNotificationAt := some now }

/-- A job that waits for an instant that has come. -/
def isPromotable (now : Int) (j : Job) : Bool :=
  (j.status == .pending || j.status == .retryWait) && decide (j.availableAt ≤ now)

/-- `promoteDueJob`, on the job it routed to. -/
def promoteRead (env : Env) (db : DB) (job : Job) : Tx (Bool × DB) := do
  let _ ← lockQueue db job.queue "lock queue for promotion"
  if isPromotable env.clock.s₀ job then do
    let row ← updateReturning .jobs db.jobs
      (fun j => j.id == job.id &&
        (j.status == job.status && j.notificationGeneration == job.notificationGeneration))
      (promotedJob env.clock.s₀) .skipped (reported "promote job")
    let outbox ← insertWorkAvailableTx db.outbox env.id₁ env.clock.start job.id job.queue
      row.1.notificationGeneration none
    pure (true, { db with jobs := row.2, outbox := outbox })
  else pure (false, db)

/-- `promoteDueJob` -/
def promoteDueJob (env : Env) (jobID : UUID) (db : DB) : Tx (Bool × DB) :=
  match db.jobs.rows.find? fun j => j.id == jobID with
  | none => pure (false, db)
  | some job => promoteRead env db job

/-- `renotifyStrandedJob`'s update. -/
def renotifiedJob (now : Int) (j : Job) : Job := { j with lastNotificationAt := some now }

/-- A queued job that was last advertised before the interval began, and whose
current generation no unpublished event advertises. -/
def isStranded (db : DB) (after now : Int) (j : Job) : Bool :=
  j.status == .queued && decide (1 ≤ j.notificationGeneration) &&
    (j.lastNotificationAt.any fun t => decide (goTime t < goTime now - after)) &&
    !hasPendingWorkAvailable db j.id j.notificationGeneration

/-- `renotifyStrandedJob`, on the job it routed to. -/
def renotifyRead (env : Env) (after : Int) (db : DB) (job : Job) : Tx (Bool × DB) := do
  let _ ← lockQueue db job.queue "lock queue for re-notification"
  if isStranded db after env.clock.s₀ job then do
    let jobs ← updateOne .jobs db.jobs
      (fun j => j.id == job.id &&
        (j.status == .queued && j.notificationGeneration == job.notificationGeneration))
      (renotifiedJob env.clock.s₀) .skipped (reported "stamp re-notification")
    let outbox ← insertWorkAvailableTx db.outbox env.id₁ env.clock.start job.id job.queue
      job.notificationGeneration none
    pure (true, { db with jobs := jobs, outbox := outbox })
  else pure (false, db)

/-- `renotifyStrandedJob` -/
def renotifyStrandedJob (env : Env) (jobID : UUID) (after : Int) (db : DB) : Tx (Bool × DB) :=
  match db.jobs.rows.find? fun j => j.id == jobID with
  | none => pure (false, db)
  | some job => renotifyRead env after db job

/-! ## What they write -/

def submitWrites (env : Env) (scope key : String) (req : NormalizedRequest)
    (trace : TraceContext) : Writes where
  job := .insert (submittedJob env scope req)
  events := if isDelayed env.clock.s₀ req then [] else
    [workAvailableEvent env.id₂ env.clock.start env.id₁ req.queue 1 (some trace)]
  idempotency := [⟨scope, key, env.fingerprint req, env.id₁, env.clock.start⟩]

def replayWrites (env : Env) (scope key : String) (original : Job) : Writes where
  job := .insert (replacementJob env scope original)
  events := [workAvailableEvent env.id₂ env.clock.start env.id₁ original.queue 1 none]
  replays := [⟨scope, original.id, key, env.id₁, env.clock.start⟩]

def cancelWrites (target : JobStatus) (now : Int) (j : Job) : Writes where
  job := .replace j (cancelledJob target now j)

def promoteWrites (env : Env) (j : Job) : Writes where
  job := .replace j (promotedJob env.clock.s₀ j)
  events := [workAvailableEvent env.id₁ env.clock.start j.id j.queue (j.notificationGeneration + 1)
    none]

def renotifyWrites (env : Env) (j : Job) : Writes where
  job := .replace j (renotifiedJob env.clock.s₀ j)
  events := [workAvailableEvent env.id₁ env.clock.start j.id j.queue j.notificationGeneration none]

section Spec

variable {env : Env} {db db' : DB} {scope key : String} {f : Failure}
variable {j : Job} {name context : String} {req : NormalizedRequest} {trace : TraceContext}
  {originalJobID jobID : UUID} {k : Job → Tx (Bool × DB)} {r : Bool} {after : Int}

theorem jobInScope_eq_some {id : UUID} (h : jobInScope db scope id = some j) :
    j ∈ db.jobs.rows ∧ j.id = id ∧ j.scope = scope := by
  obtain ⟨hm, hp⟩ := found_of_find? h
  simp only [Bool.and_eq_true, beq_iff_eq] at hp
  exact ⟨hm, hp⟩

theorem jobInScope_of_mem (hj : j ∈ db.jobs.rows) :
    jobInScope db j.scope j.id = some j := by
  refine find?_eq_some_of_unique hj (by simp) fun x hx hp => ?_
  rw [Bool.and_eq_true, beq_iff_eq] at hp
  exact db.job_eq_of_id hx hj hp.1

theorem lockQueue_eq_ok {q : Queue} (h : lockQueue db name context = .ok q) :
    ∃ q ∈ db.queues.rows, q.name = name := by
  rw [lockQueue, fetch_eq_ok] at h
  exact ⟨q, List.mem_of_find?_eq_some h, by simpa using List.find?_some h⟩

theorem lockQueue_forced (hf : f.cause ≠ .check) :
    lockQueue db name context = .error f ↔ False := fetch_forced hf

/-! ### Submission -/

/-- A submission is notified exactly when it is not delayed. -/
theorem notifySubmitted_submittedJob {t : Table outboxEvents} :
    notifySubmitted env t (submittedJob env scope req) trace =
      if isDelayed env.clock.s₀ req then pure t
      else insertWorkAvailableTx t env.id₂ env.clock.start env.id₁ req.queue 1 (some trace) := by
  by_cases hd : isDelayed env.clock.s₀ req = true
  · simp [notifySubmitted, submittedJob, hd]
  · simp [notifySubmitted, submittedJob, hd]

theorem submit_eq_ok {r : SubmitResult} (h : submit env scope key req trace db = .ok (r, db')) :
    (db' = db ∧ r.replayed = true) ∨
      ((∃ q ∈ db.queues.rows, q.name = req.queue) ∧ r = ⟨submittedView env scope req, false⟩ ∧
        (submitWrites env scope key req trace).Applied db db') := by
  simp only [submit, bind_eq_ok, demand_eq_ok, ite_eq_ok, pure_eq_ok, Prod.mk.injEq,
    List.any_eq_true, beq_iff_eq] at h
  obtain ⟨-, hq, jobs', hins, ⟨-, r', hres, rfl, rfl⟩ |
    ⟨-, idem', hidem, outbox', hout, rfl, rfl⟩⟩ := h
  · simp only [resolveExisting, bind_eq_ok, pure_eq_ok] at hres
    obtain ⟨-, -, -, -, -, -, rfl⟩ := hres
    exact .inl ⟨rfl, rfl⟩
  · have hjrows := insertRow_eq_ok hins
    have hirows := insertRow_eq_ok hidem
    have horows : outbox'.rows = db.outbox.rows ++ (submitWrites env scope key req trace).events := by
      rw [notifySubmitted_submittedJob, ite_eq_ok, pure_eq_ok] at hout
      rcases hout with ⟨hd, rfl⟩ | ⟨hd, hins⟩
      · simp [submitWrites, hd]
      · rw [(insertWorkAvailableTx_eq_ok hins).2]
        simp [submitWrites, hd]
    exact .inr ⟨hq, rfl, ⟨rfl, rfl, rfl, hjrows, rfl, rfl, horows, (List.append_nil _).symm,
      (List.append_nil _).symm, hirows, (List.append_nil _).symm⟩⟩

theorem submit_forced (hf : f.cause ≠ .check) (h : submit env scope key req trace db = .error f) :
    (∃ q ∈ db.queues.rows, q.name = req.queue) ∧
      (submitWrites env scope key req trace).Refused db f := by
  simp only [submit, resolveExisting, getByID, bind_eq_error, demand_forced hf, fetch_forced hf,
    demand_eq_ok, List.any_eq_true, beq_iff_eq, ite_eq_error, pure_ne_error, false_or, and_false,
    exists_false, or_false] at h
  obtain ⟨-, hq, hins | ⟨jobs', -, -, hidem | ⟨idem', -, hout⟩⟩⟩ := h
  all_goals refine ⟨hq, ?_⟩
  · exact .job (insertRow_eq_error hins)
  · exact .idempotency _ (List.mem_singleton.mpr rfl) (insertRow_eq_error hidem)
  · simp only [notifySubmitted_submittedJob, insertWorkAvailableTx, ite_eq_error, pure_ne_error,
      and_false, false_or, bind_eq_error, demand_forced hf] at hout
    obtain ⟨hd, -, -, hins⟩ := hout
    exact .event _ (by simp [submitWrites, hd]) (insertRow_eq_error hins)

/-! ### Replay -/

/-- What a replay that makes a job needs of the original. -/
structure ReplayReady (scope : String) (originalJobID : UUID) (db : DB) (original : Job) :
    Prop where
  mem : original ∈ db.jobs.rows
  id : original.id = originalJobID
  scope_eq : original.scope = scope
  dead : original.status = .deadLettered
  entry : ∃ d ∈ db.dlqEntries.rows, d.jobID = originalJobID
  queue : ∃ q ∈ db.queues.rows, q.name = original.queue

theorem replay_eq_ok {r : ReplayResult} (h : replay env scope originalJobID key db = .ok (r, db')) :
    ∃ original, ReplayReady scope originalJobID db original ∧
      ((db' = db ∧ r.replayed = true) ∨
        (r = ⟨originalJobID, scanJob (replacementJob env scope original), false⟩ ∧
          (replayWrites env scope key original).Applied db db')) := by
  simp only [replay, bind_eq_ok, demand_eq_ok, fetch_eq_ok, ite_eq_ok, pure_eq_ok,
    Prod.mk.injEq, List.any_eq_true, beq_iff_eq] at h
  obtain ⟨original, horig, q, hq, -, hdead, -, hentry, jobs', hins, hrest⟩ := h
  obtain ⟨hmem, hid, hscope⟩ := jobInScope_eq_some horig
  refine ⟨original, ⟨hmem, hid, hscope, hdead, hentry, lockQueue_eq_ok hq⟩, ?_⟩
  rcases hrest with ⟨-, r', hres, rfl, rfl⟩ | ⟨-, replays', hrep, outbox', hout, rfl, rfl⟩
  · simp only [resolveExistingReplay, bind_eq_ok, pure_eq_ok] at hres
    obtain ⟨-, -, -, -, rfl⟩ := hres
    exact .inl ⟨rfl, rfl⟩
  · have hjrows := insertRow_eq_ok hins
    have hrrows := insertRow_eq_ok hrep
    obtain ⟨-, horows⟩ := insertWorkAvailableTx_eq_ok hout
    refine .inr ⟨rfl, ?_⟩
    constructor <;> simp [replayWrites, RowWrite.apply, hjrows, hrrows, horows, replacementJob, hid]

theorem replay_forced (hf : f.cause ≠ .check)
    (h : replay env scope originalJobID key db = .error f) :
    ∃ original, ReplayReady scope originalJobID db original ∧
      (replayWrites env scope key original).Refused db f := by
  simp only [replay, resolveExistingReplay, getByID, insertWorkAvailableTx, bind_eq_error,
    demand_forced hf, fetch_forced hf, lockQueue_forced hf, fetch_eq_ok, demand_eq_ok,
    ite_eq_error, pure_ne_error, false_or, and_false, exists_false, or_false, List.any_eq_true,
    beq_iff_eq] at h
  obtain ⟨original, horig, q, hq, -, hdead, -, hentry, hrest⟩ := h
  obtain ⟨hmem, hid, hscope⟩ := jobInScope_eq_some horig
  refine ⟨original, ⟨hmem, hid, hscope, hdead, hentry, lockQueue_eq_ok hq⟩, ?_⟩
  rcases hrest with hins | ⟨jobs', -, -, hrep | ⟨replays', -, -, -, hout⟩⟩
  · exact .job (insertRow_eq_error hins)
  · rw [← hid] at hrep
    exact .replay _ (List.mem_singleton.mpr rfl) (insertRow_eq_error hrep)
  · exact .event _ (List.mem_singleton.mpr rfl) (insertRow_eq_error hout)

/-! ### Cancellation -/

theorem requestCancel_eq_ok {r : CancelResult}
    (h : requestCancel env scope jobID db = .ok (r, db')) :
    ∃ j ∈ db.jobs.rows, j.id = jobID ∧ j.scope = scope ∧
      (((j.status = .cancelRequested ∨ j.status = .canceled) ∧
          r = ⟨jobID, j.status, j.cancelRequestedAt, true⟩ ∧ db' = db) ∨
        ∃ target, cancelTarget j.status = some target ∧
          r = ⟨jobID, target, some env.clock.s₀, false⟩ ∧
          (cancelWrites target env.clock.s₀ j).Applied db db') := by
  simp only [requestCancel, bind_eq_ok, fetch_eq_ok, ite_eq_ok, pure_eq_ok, Prod.mk.injEq] at h
  obtain ⟨j, hj, -, -, hrest⟩ := h
  obtain ⟨hmem, hid, hscope⟩ := jobInScope_eq_some hj
  refine ⟨j, hmem, hid, hscope, ?_⟩
  rcases hrest with ⟨hst, rfl, rfl⟩ | ⟨-, target, htarget, jobs', hupd, rfl, rfl⟩
  · exact .inl ⟨hst, rfl, rfl⟩
  · rw [← hid] at hupd
    obtain ⟨-, hrows⟩ := updateOne_eq_ok (job_pk hmem) hupd
    refine .inr ⟨target, htarget, rfl, ?_⟩
    constructor <;> simp [cancelWrites, RowWrite.apply, hrows]

theorem requestCancel_forced (hf : f.cause ≠ .check)
    (h : requestCancel env scope jobID db = .error f) :
    ∃ j ∈ db.jobs.rows, j.id = jobID ∧ j.scope = scope ∧
      ∃ target, cancelTarget j.status = some target ∧
        (cancelWrites target env.clock.s₀ j).Refused db f := by
  simp only [requestCancel, bind_eq_error, fetch_forced hf, lockQueue_forced hf, fetch_eq_ok,
    ite_eq_error, pure_ne_error, false_or, and_false, exists_false, or_false] at h
  obtain ⟨j, hj, -, -, -, target, htarget, hupd⟩ := h
  obtain ⟨hmem, hid, hscope⟩ := jobInScope_eq_some hj
  refine ⟨j, hmem, hid, hscope, target, htarget, .job ?_⟩
  rw [← hid] at hupd
  exact updateOne_eq_error hmem (by simp [hscope]) (job_pk hmem) hupd

/-! ### The scheduler -/

/-- What the scheduler's two transactions do: they route to the job and go on there. -/
def routed (db : DB) (jobID : UUID) (k : Job → Tx (Bool × DB)) : Tx (Bool × DB) :=
  match db.jobs.rows.find? fun j => j.id == jobID with
  | none => pure (false, db)
  | some job => k job

theorem routed_eq_ok (h : routed db jobID k = .ok (r, db')) :
    (r = false ∧ db' = db ∧ ∀ j ∈ db.jobs.rows, j.id ≠ jobID) ∨
      ∃ j ∈ db.jobs.rows, j.id = jobID ∧ k j = .ok (r, db') := by
  unfold routed at h
  split at h
  · next hj =>
    obtain ⟨rfl, rfl⟩ := Prod.mk.inj (pure_eq_ok.mp h)
    exact .inl ⟨rfl, rfl, fun j hmem hid => List.find?_eq_none.mp hj j hmem (beq_iff_eq.mpr hid)⟩
  · next job hj =>
    exact .inr ⟨job, List.mem_of_find?_eq_some hj, by simpa using List.find?_some hj, h⟩

theorem routed_eq_error (h : routed db jobID k = .error f) :
    ∃ j ∈ db.jobs.rows, j.id = jobID ∧ k j = .error f := by
  unfold routed at h
  split at h
  · exact absurd h pure_ne_error.mp
  · next job hj =>
    exact ⟨job, List.mem_of_find?_eq_some hj, by simpa using List.find?_some hj, h⟩

theorem promoteDueJob_eq_ok (h : promoteDueJob env jobID db = .ok (r, db')) :
    (r = false ∧ db' = db ∧
        ∀ j ∈ db.jobs.rows, j.id = jobID → isPromotable env.clock.s₀ j = false) ∨
      (r = true ∧ ∃ j ∈ db.jobs.rows, j.id = jobID ∧ isPromotable env.clock.s₀ j = true ∧
        (promoteWrites env j).Applied db db') := by
  obtain ⟨rfl, rfl, hnone⟩ | ⟨job, hmem, hid, h⟩ := routed_eq_ok h
  · exact .inl ⟨rfl, rfl, fun j hj hid => absurd hid (hnone j hj)⟩
  simp only [promoteRead, bind_eq_ok, ite_eq_ok, pure_eq_ok, Prod.mk.injEq] at h
  obtain ⟨-, -, ⟨hprom, ⟨new, jobs'⟩, hupd, outbox', hout, rfl, rfl⟩ | ⟨hnot, rfl, rfl⟩⟩ := h
  · obtain ⟨-, rfl, hrows⟩ := updateReturning_eq_ok (job_pk hmem) hupd
    obtain ⟨-, horows⟩ := insertWorkAvailableTx_eq_ok hout
    refine .inr ⟨rfl, job, hmem, hid, hprom, ?_⟩
    constructor <;> simp [promoteWrites, RowWrite.apply, hrows, horows, promotedJob]
  · refine .inl ⟨rfl, rfl, fun j hj' hjid => ?_⟩
    rw [db.job_eq_of_id hj' hmem (hjid.trans hid.symm)]
    simpa using hnot

theorem promoteDueJob_forced (hf : f.cause ≠ .check) (h : promoteDueJob env jobID db = .error f) :
    ∃ j ∈ db.jobs.rows, j.id = jobID ∧ isPromotable env.clock.s₀ j = true ∧
      (promoteWrites env j).Refused db f := by
  obtain ⟨job, hmem, hid, h⟩ := routed_eq_error h
  simp only [promoteRead, bind_eq_error, lockQueue_forced hf, ite_eq_error, pure_ne_error,
    false_or, and_false, exists_false, or_false] at h
  obtain ⟨-, -, hprom, hupd | ⟨⟨new, jobs'⟩, hupd, hout⟩⟩ := h
  · exact ⟨job, hmem, hid, hprom, .job (updateReturning_eq_error hmem (by simp) (job_pk hmem) hupd)⟩
  · obtain ⟨-, rfl, -⟩ := updateReturning_eq_ok (job_pk hmem) hupd
    simp only [insertWorkAvailableTx, bind_eq_error, demand_forced hf, false_or] at hout
    obtain ⟨-, -, hins⟩ := hout
    exact ⟨job, hmem, hid, hprom, .event _ (List.mem_singleton.mpr rfl) (insertRow_eq_error hins)⟩

theorem renotifyStrandedJob_eq_ok (h : renotifyStrandedJob env jobID after db = .ok (r, db')) :
    (r = false ∧ db' = db ∧
        ∀ j ∈ db.jobs.rows, j.id = jobID → isStranded db after env.clock.s₀ j = false) ∨
      (r = true ∧ ∃ j ∈ db.jobs.rows, j.id = jobID ∧
        isStranded db after env.clock.s₀ j = true ∧ (renotifyWrites env j).Applied db db') := by
  obtain ⟨rfl, rfl, hnone⟩ | ⟨job, hmem, hid, h⟩ := routed_eq_ok h
  · exact .inl ⟨rfl, rfl, fun j hj hid => absurd hid (hnone j hj)⟩
  simp only [renotifyRead, bind_eq_ok, ite_eq_ok, pure_eq_ok, Prod.mk.injEq] at h
  obtain ⟨-, -, ⟨hstr, jobs', hupd, outbox', hout, rfl, rfl⟩ | ⟨hnot, rfl, rfl⟩⟩ := h
  · obtain ⟨-, hrows⟩ := updateOne_eq_ok (job_pk hmem) hupd
    obtain ⟨-, horows⟩ := insertWorkAvailableTx_eq_ok hout
    refine .inr ⟨rfl, job, hmem, hid, hstr, ?_⟩
    constructor <;> simp [renotifyWrites, RowWrite.apply, hrows, horows]
  · refine .inl ⟨rfl, rfl, fun j hj' hjid => ?_⟩
    rw [db.job_eq_of_id hj' hmem (hjid.trans hid.symm)]
    simpa using hnot

theorem renotifyStrandedJob_forced (hf : f.cause ≠ .check)
    (h : renotifyStrandedJob env jobID after db = .error f) :
    ∃ j ∈ db.jobs.rows, j.id = jobID ∧ isStranded db after env.clock.s₀ j = true ∧
      (renotifyWrites env j).Refused db f := by
  obtain ⟨job, hmem, hid, h⟩ := routed_eq_error h
  simp only [renotifyRead, insertWorkAvailableTx, bind_eq_error, lockQueue_forced hf,
    demand_forced hf, ite_eq_error, pure_ne_error, false_or, and_false, exists_false, or_false] at h
  obtain ⟨-, -, hstr, hupd | ⟨jobs', -, -, -, hins⟩⟩ := h
  · have hq : job.status = .queued := by
      simp only [isStranded, Bool.and_eq_true, beq_iff_eq] at hstr
      exact hstr.1.1.1
    exact ⟨job, hmem, hid, hstr, .job (updateOne_eq_error hmem (by simp [hq]) (job_pk hmem) hupd)⟩
  · exact ⟨job, hmem, hid, hstr, .event _ (List.mem_singleton.mpr rfl) (insertRow_eq_error hins)⟩

end Spec

end TaskForge
