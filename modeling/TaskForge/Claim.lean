/-
`Claim`: how a job is handed to a worker session (`internal/workers/store.go`).

The transaction answers in five ways, and only one of them writes: the job it
selects moves to `LEASED`, and an attempt and its lease come into being
together. The attempt's number is one above the highest the job has, and the
selection refuses a job whose attempts have used its budget, so this is the one
place where the budget is spent.
-/
import TaskForge.Sessions

open Relational Fallible

namespace TaskForge

/-! ## Reads -/

/-- `lookupClaim`: the assignment a claim request was answered with. Its remaining
window is filled in by the caller. -/
def lookupClaim (db : DB) (claimID : UUID) : Option Assignment := do
  let l ← db.leases.rows.find? fun l => l.claimRequestID == claimID
  let a ← db.attempts.rows.find? fun a => a.id == l.attemptID
  let j ← db.jobs.rows.find? fun j => j.id == a.jobID
  some
    { scope := a.scope
      jobID := j.id
      queue := j.queue
      jobType := j.jobType
      payload := j.payload
      priority := j.priority
      timeoutSeconds := j.timeoutSeconds
      requiredCapabilities := j.requiredCapabilities
      attemptID := a.id
      attemptNumber := a.attemptNumber
      leaseID := l.id
      leaseExpiresAt := l.expiresAt
      leaseRemaining := 0
      workerID := a.workerID
      sessionID := a.workerSessionID }

/-- The attempts of a job. -/
def attemptsOf (db : DB) (jobID : UUID) : List JobAttempt :=
  db.attempts.rows.filter fun a => decide (a.jobID = jobID)

/-- `COALESCE(max(attempt_number), 0) + 1` -/
def nextAttemptNumber (db : DB) (jobID : UUID) : ℕ :=
  ((attemptsOf db jobID).map JobAttempt.attemptNumber).foldr max 0 + 1

/-- A queued job that is due. -/
def isDue (scope queue : String) (now : Int) (j : Job) : Bool :=
  j.scope == scope && j.queue == queue && j.status == .queued && decide (j.availableAt ≤ now)

/-- The selection predicate of `Claim`. -/
def isEligible (db : DB) (scope queue : String) (s : WorkerSession) (now : Int) (j : Job) : Bool :=
  isDue scope queue now j && (j.requiredCapabilities.all fun c => s.capabilities.contains c) &&
    s.supportedJobTypes.contains j.jobType &&
    decide (((attemptsOf db j.id).length : Int) < j.maxAttempts)

/-- `ORDER BY priority DESC, available_at, created_at, id` -/
def claimedBefore (x y : Job) : Bool :=
  decide (y.priority < x.priority) || (x.priority == y.priority &&
    (decide (x.availableAt < y.availableAt) || (x.availableAt == y.availableAt &&
      (decide (x.createdAt < y.createdAt) || (x.createdAt == y.createdAt &&
        decide (x.id ≤ y.id))))))

/-- The job `Claim` selects. -/
def selectJob (db : DB) (scope queue : String) (s : WorkerSession) (now : Int) : Option Job :=
  ((db.jobs.rows.filter (isEligible db scope queue s now)).mergeSort claimedBefore).head?

/-- `count(*) … status = 'ACTIVE'` by queue. -/
def activeForQueue (db : DB) (queue : String) : ℕ :=
  db.leases.count fun l => l.queue == queue && l.status == .active

/-- `count(*) … status = 'ACTIVE'` by logical worker. -/
def activeForWorker (db : DB) (workerID : UUID) : ℕ :=
  db.leases.count fun l => l.workerID == workerID && l.status == .active

/-! ## Rows -/

/-- The attempt a claim inserts. -/
def claimedAttempt (env : Env) (scope : String) (req : ClaimRequest) (number : ℕ) (j : Job) :
    JobAttempt where
  id := env.id₁
  jobID := j.id
  scope := scope
  queue := j.queue
  attemptNumber := number
  workerID := req.workerID
  workerSessionID := req.sessionID
  status := .leased
  startedAt := none
  finishedAt := none
  timeoutAt := none
  outcomeRequestID := none
  failureClass := none
  errorCode := none
  errorMessage := none
  retryDelayMs := none
  retryAt := none
  createdAt := env.clock.start

/-- The lease a claim inserts. -/
def claimedLease (env : Env) (scope : String) (req : ClaimRequest) (j : Job) : Lease where
  id := env.id₂
  jobID := j.id
  attemptID := env.id₁
  scope := scope
  queue := j.queue
  workerID := req.workerID
  workerSessionID := req.sessionID
  claimRequestID := req.claimRequestID
  status := .active
  acquiredAt := env.clock.s₁
  expiresAt := leaseExpiry env env.clock.s₁
  renewedAt := env.clock.s₁
  releasedAt := none
  renewalVersion := 0
  lastRenewalRequestID := none

/-- `Claim`'s update of the job. -/
def leasedJob (now : Int) (j : Job) : Job := { j with status := .leased, updatedAt := now }

/-- The assignment of a fresh claim. -/
def claimedAssignment (env : Env) (scope : String) (req : ClaimRequest) (number : ℕ) (j : Job) :
    Assignment where
  scope := scope
  jobID := j.id
  queue := j.queue
  jobType := j.jobType
  payload := j.payload
  priority := j.priority
  timeoutSeconds := j.timeoutSeconds
  requiredCapabilities := j.requiredCapabilities
  attemptID := env.id₁
  attemptNumber := number
  leaseID := env.id₂
  leaseExpiresAt := leaseExpiry env env.clock.s₁
  leaseRemaining := env.leaseDuration
  workerID := req.workerID
  sessionID := req.sessionID

/-! ## The transaction -/

/-- `commitNoClaim` -/
def noClaim (disposition : ClaimDisposition) (db : DB) : Tx (ClaimResult × DB) :=
  pure (⟨disposition, none, false⟩, db)

/-- The writes of a claim, once its job is selected. -/
def claimJob (env : Env) (scope : String) (req : ClaimRequest) (db : DB) (j : Job) :
    Tx (ClaimResult × DB) := do
  let number := nextAttemptNumber db j.id
  let attempts ← insertRow .jobAttempts db.attempts (claimedAttempt env scope req number j)
    (reported "insert job attempt")
  let leases ← insertRow .leases db.leases (claimedLease env scope req j)
    (reported "insert active lease")
  let jobs ← updateOne .jobs db.jobs
    (fun k => k.id == j.id && (k.scope == scope && k.status == .queued)) (leasedJob env.clock.s₁)
    (.stateConflict "queued job changed during claim") (reported "lease job")
  pure (⟨.claimed, some (claimedAssignment env scope req number j), false⟩,
    { db with jobs := jobs, attempts := attempts, leases := leases })

/-- `Claim`, once it is known that the request is new. -/
def claimFresh (env : Env) (scope : String) (req : ClaimRequest) (queue : Queue)
    (session : WorkerSession) (db : DB) : Tx (ClaimResult × DB) :=
  if session.workerGroup ≠ queue.workerGroup then noClaim .noEligibleJob db
  else if queue.maxConcurrency ≤ activeForQueue db req.queue then noClaim .capacityExhausted db
  else if session.concurrencyLimit ≤ activeForWorker db req.workerID then
    noClaim .capacityExhausted db
  else match selectJob db scope req.queue session env.clock.s₀ with
    | some j => claimJob env scope req db j
    | none =>
      if db.jobs.rows.any (isDue scope req.queue env.clock.s₁) then noClaim .noEligibleJob db
      else noClaim .queueEmpty db

/-- `Claim` on the assignment it read, or on a new request. -/
def claimRead (env : Env) (scope : String) (req : ClaimRequest) (queue : Queue)
    (session : WorkerSession) (db : DB) : Option Assignment → Tx (ClaimResult × DB)
  | some existing => do
    demand (existing.scope == scope && existing.queue == req.queue) .claimConflict
    if existing.workerID ≠ req.workerID ∨ existing.sessionID ≠ req.sessionID then
      noClaim .duplicateNotification db
    else
      pure (⟨.claimed, some { existing with
        leaseRemaining := remainingUntil existing.leaseExpiresAt env.clock.s₁ }, true⟩, db)
  | none => claimFresh env scope req queue session db

/-- `Store.Claim` -/
def claim (env : Env) (scope : String) (req : ClaimRequest) (db : DB) : Tx (ClaimResult × DB) := do
  validate (validateClaim req)
  demand (decide (0 < env.leaseDuration)) (.failed "lease duration must be positive")
  -- The unlocked pre-read.
  demand ((lookupClaim db req.claimRequestID).all fun existing =>
    existing.scope == scope && existing.queue == req.queue) .claimConflict
  let queue ← fetch (db.queues.rows.find? fun q => q.name == req.queue) .unknownQueue
  let session ← fetch
    (db.sessions.rows.find? (sessionMatches req.sessionID req.workerID scope)) .sessionUnavailable
  demand (session.status == .healthy) .sessionUnavailable
  claimRead env scope req queue session db (lookupClaim db req.claimRequestID)

/-! ## What it needs and writes -/

/-- What a claim that assigns needs of the session and the job. -/
structure ClaimReady (env : Env) (scope : String) (req : ClaimRequest) (db : DB)
    (s : WorkerSession) (j : Job) : Prop where
  duration : 0 < env.leaseDuration
  unclaimed : lookupClaim db req.claimRequestID = none
  session_mem : s ∈ db.sessions.rows
  session_id : s.id = req.sessionID
  session_worker : s.workerID = req.workerID
  session_scope : s.scope = scope
  healthy : s.status = .healthy
  queue : ∃ q ∈ db.queues.rows, q.name = req.queue ∧ s.workerGroup = q.workerGroup ∧
    (activeForQueue db req.queue : Int) < q.maxConcurrency
  capacity : (activeForWorker db req.workerID : Int) < s.concurrencyLimit
  job_mem : j ∈ db.jobs.rows
  eligible : isEligible db scope req.queue s env.clock.s₀ j = true

/-- What a claim writes. -/
def claimWrites (env : Env) (scope : String) (req : ClaimRequest) (number : ℕ) (j : Job) :
    Writes where
  job := .replace j (leasedJob env.clock.s₁ j)
  attempt := .insert (claimedAttempt env scope req number j)
  lease := .insert (claimedLease env scope req j)

section Spec

variable {env : Env} {db db' : DB} {scope : String} {req : ClaimRequest} {f : Failure}
variable {queue : String} {s : WorkerSession} {now : Int} {j : Job} {r : ClaimResult}

theorem isEligible_eq_true :
    isEligible db scope queue s now j = true ↔
      (j.scope = scope ∧ j.queue = queue ∧ j.status = .queued ∧ j.availableAt ≤ now) ∧
        (∀ c ∈ j.requiredCapabilities, c ∈ s.capabilities) ∧ j.jobType ∈ s.supportedJobTypes ∧
        ((attemptsOf db j.id).length : Int) < j.maxAttempts := by
  simp [isEligible, isDue, and_assoc]

/-- The selected job is one the predicate selects. -/
theorem selectJob_eq_some (h : selectJob db scope queue s now = some j) :
    j ∈ db.jobs.rows ∧ isEligible db scope queue s now j = true := by
  have hmem := List.mem_of_mem_head? h
  rw [List.mem_mergeSort, List.mem_filter] at hmem
  exact hmem

/-- A statement keyed by a job's id selects that job or nothing. -/
theorem job_pk (hj : j ∈ db.jobs.rows) {q : Job → Bool} :
    ∀ x ∈ db.jobs.rows, (x.id == j.id && q x) = true → x = j := by
  intro x hx hp
  rw [Bool.and_eq_true, beq_iff_eq] at hp
  exact db.job_eq_of_id hx hj hp.1

theorem claimJob_eq_ok (hj : j ∈ db.jobs.rows) (h : claimJob env scope req db j = .ok (r, db')) :
    r = ⟨.claimed, some (claimedAssignment env scope req (nextAttemptNumber db j.id) j), false⟩ ∧
      (claimWrites env scope req (nextAttemptNumber db j.id) j).Applied db db' := by
  simp only [claimJob, bind_eq_ok, pure_eq_ok, Prod.mk.injEq] at h
  obtain ⟨attempts', hatt, leases', hlease, jobs', hjobs, rfl, rfl⟩ := h
  have harows := insertRow_eq_ok hatt
  have hlrows := insertRow_eq_ok hlease
  obtain ⟨-, hjrows⟩ := updateOne_eq_ok (job_pk hj) hjobs
  refine ⟨rfl, ?_⟩
  constructor <;> simp [claimWrites, RowWrite.apply, harows, hlrows, hjrows]

theorem claimJob_forced (hj : j ∈ db.jobs.rows) (hscope : j.scope = scope)
    (hqueued : j.status = .queued) (h : claimJob env scope req db j = .error f) :
    (claimWrites env scope req (nextAttemptNumber db j.id) j).Refused db f := by
  simp only [claimJob, bind_eq_error, pure_ne_error, and_false, exists_false, or_false] at h
  rcases h with hatt | ⟨attempts', -, hlease | ⟨leases', -, hjobs⟩⟩
  · exact .attempt (insertRow_eq_error hatt)
  · exact .lease (insertRow_eq_error hlease)
  · exact .job (updateOne_eq_error hj (by simp [hscope, hqueued]) (job_pk hj) hjobs)

/-- The ways a claim is answered, and the database it leaves. -/
inductive Claiming (env : Env) (scope : String) (req : ClaimRequest) (db : DB) :
    ClaimResult → DB → Prop where
  /-- Its identity has been used: by this session, or by another. -/
  | replayed (x : Assignment) (found : lookupClaim db req.claimRequestID = some x)
      (own : (x.scope = scope ∧ x.queue = req.queue) ∧ x.workerID = req.workerID ∧
        x.sessionID = req.sessionID) :
      Claiming env scope req db ⟨.claimed, some { x with
        leaseRemaining := remainingUntil x.leaseExpiresAt env.clock.s₁ }, true⟩ db
  | duplicate (x : Assignment) (found : lookupClaim db req.claimRequestID = some x) :
      Claiming env scope req db ⟨.duplicateNotification, none, false⟩ db
  /-- Nothing it may have, or no room for it. -/
  | ineligible : Claiming env scope req db ⟨.noEligibleJob, none, false⟩ db
  | exhausted : Claiming env scope req db ⟨.capacityExhausted, none, false⟩ db
  /-- Nothing is due, to a session of the queue. -/
  | empty (s : WorkerSession) (q : Queue) (session_mem : s ∈ db.sessions.rows)
      (session_scope : s.scope = scope) (queue_mem : q ∈ db.queues.rows) (queue : q.name = req.queue)
      (group : s.workerGroup = q.workerGroup)
      (none_due : db.jobs.rows.any (isDue scope req.queue env.clock.s₁) = false) :
      Claiming env scope req db ⟨.queueEmpty, none, false⟩ db
  /-- A job is handed out. -/
  | assigned (s : WorkerSession) (j : Job) (db' : DB) (ready : ClaimReady env scope req db s j)
      (applied : (claimWrites env scope req (nextAttemptNumber db j.id) j).Applied db db') :
      Claiming env scope req db
        ⟨.claimed, some (claimedAssignment env scope req (nextAttemptNumber db j.id) j), false⟩ db'

theorem claim_answer (h : claim env scope req db = .ok (r, db')) :
    (∃ s ∈ db.sessions.rows, s.id = req.sessionID ∧ s.status = .healthy) ∧
      Claiming env scope req db r db' := by
  simp only [claim, bind_eq_ok, validate_eq_ok, demand_eq_ok, fetch_eq_ok, decide_eq_true_eq,
    beq_iff_eq] at h
  obtain ⟨-, -, -, hdur, -, -, q, hq, s, hs, -, hstatus, hrest⟩ := h
  obtain ⟨hqm, hqn⟩ := found_of_find? hq
  obtain ⟨hsm, hsp⟩ := found_of_find? hs
  simp only [sessionMatches, Bool.and_eq_true, beq_iff_eq] at hsp hqn
  obtain ⟨⟨hsid, hsw⟩, hssc⟩ := hsp
  refine ⟨⟨s, hsm, hsid, hstatus⟩, ?_⟩
  cases hread : lookupClaim db req.claimRequestID with
  | some existing =>
    simp only [hread, claimRead, noClaim, bind_eq_ok, demand_eq_ok, ite_eq_ok, pure_eq_ok,
      Prod.mk.injEq, Bool.and_eq_true, beq_iff_eq] at hrest
    rcases hrest with ⟨-, hmatch, ⟨-, rfl, rfl⟩ | ⟨hown, rfl, rfl⟩⟩
    · exact .duplicate existing hread
    · push Not at hown
      exact .replayed existing hread ⟨hmatch, hown⟩
  | none =>
    simp only [hread, claimRead, claimFresh, noClaim, ite_eq_ok, pure_eq_ok,
      Prod.mk.injEq] at hrest
    rcases hrest with ⟨-, rfl, rfl⟩ | ⟨hgroup, ⟨-, rfl, rfl⟩ | ⟨hqcap, ⟨-, rfl, rfl⟩ | ⟨hwcap, hsel⟩⟩⟩
    · exact .ineligible
    · exact .exhausted
    · exact .exhausted
    · cases hj : selectJob db scope req.queue s env.clock.s₀ with
      | none =>
        simp only [hj, ite_eq_ok, pure_eq_ok, Prod.mk.injEq] at hsel
        rcases hsel with ⟨-, rfl, rfl⟩ | ⟨hnone, rfl, rfl⟩
        · exact .ineligible
        · exact .empty s q hsm hssc hqm hqn (not_not.mp hgroup) (by simpa using hnone)
      | some j =>
        rw [hj] at hsel
        obtain ⟨hjm, helig⟩ := selectJob_eq_some hj
        obtain ⟨rfl, happ⟩ := claimJob_eq_ok hjm hsel
        exact .assigned s j db' ⟨hdur, hread, hsm, hsid, hsw, hssc, hstatus,
          ⟨q, hqm, hqn, not_not.mp hgroup, not_le.mp hqcap⟩, not_le.mp hwcap, hjm, helig⟩ happ

theorem claim_eq_ok (h : claim env scope req db = .ok (r, db')) :
    (∃ s ∈ db.sessions.rows, s.id = req.sessionID ∧ s.status = .healthy) ∧
      ((db' = db ∧ (r.disposition = .claimed → r.replayed = true)) ∨
        ∃ s j, ClaimReady env scope req db s j ∧
          r = ⟨.claimed, some (claimedAssignment env scope req (nextAttemptNumber db j.id) j),
            false⟩ ∧
          (claimWrites env scope req (nextAttemptNumber db j.id) j).Applied db db') := by
  obtain ⟨hsession, hanswer⟩ := claim_answer h
  refine ⟨hsession, ?_⟩
  cases hanswer with
  | replayed x found => exact .inl ⟨rfl, fun _ => rfl⟩
  | assigned s j db' ready applied => exact .inr ⟨s, j, ready, rfl, applied⟩
  | _ => exact .inl ⟨rfl, fun hd => by cases hd⟩

theorem claim_forced (hf : f.cause ≠ .check) (h : claim env scope req db = .error f) :
    ∃ s j, ClaimReady env scope req db s j ∧
      (claimWrites env scope req (nextAttemptNumber db j.id) j).Refused db f := by
  simp only [claim, bind_eq_error, validate_forced hf, demand_forced hf, fetch_forced hf,
    validate_eq_ok, demand_eq_ok, fetch_eq_ok, false_or, decide_eq_true_eq, beq_iff_eq] at h
  obtain ⟨-, -, -, hdur, -, -, q, hq, s, hs, -, hstatus, hrest⟩ := h
  obtain ⟨hqm, hqn⟩ := found_of_find? hq
  obtain ⟨hsm, hsp⟩ := found_of_find? hs
  simp only [sessionMatches, Bool.and_eq_true, beq_iff_eq] at hsp hqn
  obtain ⟨⟨hsid, hsw⟩, hssc⟩ := hsp
  cases hread : lookupClaim db req.claimRequestID with
  | some existing =>
    simp only [hread, claimRead, noClaim, bind_eq_error, demand_forced hf, ite_eq_error,
      pure_ne_error, and_false, exists_false, or_false] at hrest
  | none =>
    simp only [hread, claimRead, claimFresh, noClaim, ite_eq_error, pure_ne_error, and_false,
      false_or] at hrest
    obtain ⟨hgroup, hqcap, hwcap, hsel⟩ := hrest
    cases hj : selectJob db scope req.queue s env.clock.s₀ with
    | none =>
      simp only [hj, ite_eq_error, pure_ne_error, and_false, or_false] at hsel
    | some j =>
      rw [hj] at hsel
      obtain ⟨hjm, helig⟩ := selectJob_eq_some hj
      obtain ⟨hdue, -⟩ := isEligible_eq_true.mp helig
      exact ⟨s, j, ⟨hdur, hread, hsm, hsid, hsw, hssc, hstatus,
        ⟨q, hqm, hqn, not_not.mp hgroup, not_le.mp hqcap⟩, not_le.mp hwcap, hjm, helig⟩,
        claimJob_forced hjm hdue.1 hdue.2.2.1 hsel⟩

end Spec

end TaskForge
