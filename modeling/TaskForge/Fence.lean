/-
The fence: the rows a fenced transition locks, and what it reads off them
(`fenceState`, `lockFence`, `lockAuthorityRows` in `internal/workers/store.go`).

`lockAuthorityRows` makes four reads. Because ids are unique they come down to
one statement: it succeeds exactly when the database holds a session, a job, an
attempt and a lease that the fence and the scope name exactly, and the lease's
queue (`Authority`). Everything proved about a fenced transition starts there,
and no later proof opens the reads again.
-/
import TaskForge.Statement

open Relational Fallible

namespace TaskForge

/-! ## What is read under the locks -/

/-- `fenceState` -/
structure FenceState where
  queue : String
  scope : String
  jobStatus : JobStatus
  attemptStatus : AttemptStatus
  leaseStatus : LeaseStatus
  expiresAt : Int
  serverNow : Int
  renewalVersion : ℕ
  lastRenewalRequestID : Option UUID
  attemptNumber : ℕ
  maxAttempts : Int
  timeoutAt : Option Int
  outcomeRequestID : Option UUID
  failureClass : Option FailureClass
  errorCode : Option String
  errorMessage : Option String
  retryDelayMillis : Option Int
  retryAt : Option Int
  sessionHealthy : Bool
deriving DecidableEq, Repr

namespace FenceState

/-- `fenceState.timedOut` -/
def timedOut (s : FenceState) : Bool := s.timeoutAt.any fun t => decide (t ≤ s.serverNow)

/-- `fenceState.leaseUsable` -/
def leaseUsable (s : FenceState) : Bool :=
  s.leaseStatus == .active && decide (s.serverNow < s.expiresAt)

/-- `fenceState.timedOutBeforeLapse` -/
def timedOutBeforeLapse (s : FenceState) : Bool :=
  (s.timeoutAt.any fun t => decide (t ≤ s.expiresAt)) && s.timedOut

/-- The state read off the locked rows at `now`. -/
def ofRows (scope : String) (s : WorkerSession) (j : Job) (a : JobAttempt) (l : Lease)
    (now : Int) : FenceState where
  queue := l.queue
  scope := scope
  jobStatus := j.status
  attemptStatus := a.status
  leaseStatus := l.status
  expiresAt := l.expiresAt
  serverNow := now
  renewalVersion := l.renewalVersion
  lastRenewalRequestID := l.lastRenewalRequestID
  attemptNumber := a.attemptNumber
  maxAttempts := j.maxAttempts
  timeoutAt := a.timeoutAt
  outcomeRequestID := a.outcomeRequestID
  failureClass := a.failureClass
  errorCode := a.errorCode
  errorMessage := a.errorMessage
  retryDelayMillis := a.retryDelayMs
  retryAt := a.retryAt
  sessionHealthy := s.status == .healthy

end FenceState

/-- The routing read: the lease with exactly this binding. -/
def leaseMatches (scope : String) (fence : Fence) (l : Lease) : Bool :=
  l.id == fence.leaseID && l.jobID == fence.jobID && l.attemptID == fence.attemptID &&
    l.workerID == fence.workerID && l.workerSessionID == fence.sessionID && l.scope == scope

/-- The session the fence names. -/
def sessionMatches (id workerID : UUID) (scope : String) (s : WorkerSession) : Bool :=
  s.id == id && s.workerID == workerID && s.scope == scope

/-- The locking read: the job, its attempt and the attempt's lease. -/
def authorityRows (db : DB) (scope : String) (fence : Fence) : Option (Job × JobAttempt × Lease) := do
  let j ← db.jobs.rows.find? fun j => j.id == fence.jobID && j.scope == scope
  let a ← db.attempts.rows.find? fun a =>
    a.id == fence.attemptID && a.jobID == j.id && a.workerID == fence.workerID &&
      a.workerSessionID == fence.sessionID && a.scope == scope
  let l ← db.leases.rows.find? fun l =>
    l.id == fence.leaseID && l.attemptID == a.id && l.scope == scope
  some (j, a, l)

/-- `lockAuthorityRows` -/
def lockAuthorityRows (db : DB) (scope : String) (fence : Fence) (now : Int) : Tx FenceState := do
  let routed ← fetch (db.leases.rows.find? (leaseMatches scope fence)) .fenceRejected
  let _ ← fetch (db.queues.rows.find? fun q => q.name == routed.queue)
    (.failed "lock queue for fenced transition")
  let session ← fetch
    (db.sessions.rows.find? (sessionMatches fence.sessionID fence.workerID scope)) .fenceRejected
  let rows ← fetch (authorityRows db scope fence) .fenceRejected
  pure (FenceState.ofRows scope session rows.1 rows.2.1 rows.2.2 now)

/-- `lockFence` -/
def lockFence (db : DB) (scope : String) (fence : Fence) (now : Int) : Tx FenceState := do
  let state ← lockAuthorityRows db scope fence now
  demand state.sessionHealthy .fenceRejected
  pure state

/-! ## The exact binding -/

/-- The rows a fence names: session, job, attempt and lease, each with the ids,
worker and scope the fence presents, and the queue the lease is routed by. -/
structure Authority (db : DB) (scope : String) (fence : Fence) (s : WorkerSession) (j : Job)
    (a : JobAttempt) (l : Lease) : Prop where
  session_mem : s ∈ db.sessions.rows
  session_id : s.id = fence.sessionID
  session_worker : s.workerID = fence.workerID
  session_scope : s.scope = scope
  job_mem : j ∈ db.jobs.rows
  job_id : j.id = fence.jobID
  job_scope : j.scope = scope
  attempt_mem : a ∈ db.attempts.rows
  attempt_id : a.id = fence.attemptID
  attempt_job : a.jobID = fence.jobID
  attempt_worker : a.workerID = fence.workerID
  attempt_session : a.workerSessionID = fence.sessionID
  attempt_scope : a.scope = scope
  lease_mem : l ∈ db.leases.rows
  lease_id : l.id = fence.leaseID
  lease_job : l.jobID = fence.jobID
  lease_attempt : l.attemptID = fence.attemptID
  lease_worker : l.workerID = fence.workerID
  lease_session : l.workerSessionID = fence.sessionID
  lease_scope : l.scope = scope
  queue_known : ∃ q ∈ db.queues.rows, q.name = l.queue

/-- The fence a lease was issued under. -/
def Lease.fence (l : Lease) : Fence :=
  ⟨l.jobID, l.attemptID, l.id, l.workerID, l.workerSessionID⟩

section Binding

variable {db : DB} {scope : String} {fence : Fence} {s : WorkerSession} {j : Job}
  {a : JobAttempt} {l : Lease} {now : Int} {st : FenceState}
variable {s' : WorkerSession} {j' : Job} {a' : JobAttempt} {l' : Lease} {scope' : String}
  {fence' : Fence} {f : Failure}

/-- The binding is determined by the fence. -/
theorem Authority.unique (h : Authority db scope fence s j a l)
    (h' : Authority db scope fence s' j' a' l') :
    s = s' ∧ j = j' ∧ a = a' ∧ l = l' :=
  ⟨db.session_eq_of_id h.session_mem h'.session_mem (h.session_id.trans h'.session_id.symm),
    db.job_eq_of_id h.job_mem h'.job_mem (h.job_id.trans h'.job_id.symm),
    db.attempt_eq_of_id h.attempt_mem h'.attempt_mem (h.attempt_id.trans h'.attempt_id.symm),
    db.lease_eq_of_id h.lease_mem h'.lease_mem (h.lease_id.trans h'.lease_id.symm)⟩

/-- The lease of a binding carries the whole fence. -/
theorem Authority.fence_eq (h : Authority db scope fence s j a l) : fence = l.fence := by
  obtain ⟨jobID, attemptID, leaseID, workerID, sessionID⟩ := fence
  simp [Lease.fence, h.lease_job, h.lease_attempt, h.lease_id, h.lease_worker, h.lease_session]

/-- The binding is determined by its lease, under whatever fence. -/
theorem Authority.eq_of_lease (h' : Authority db scope' fence' s' j' a' l')
    (h : Authority db scope fence s j a l) (hid : l'.id = l.id) :
    s' = s ∧ j' = j ∧ a' = a ∧ l' = l := by
  obtain rfl : l' = l := db.lease_eq_of_id h'.lease_mem h.lease_mem hid
  obtain rfl : scope' = scope := h'.lease_scope.symm.trans h.lease_scope
  obtain rfl : fence' = fence := h'.fence_eq.trans h.fence_eq.symm
  exact h'.unique h

/-- The binding is determined by its attempt, which has one lease. -/
theorem Authority.eq_of_attempt (h' : Authority db scope' fence' s' j' a' l')
    (h : Authority db scope fence s j a l) (hid : a'.id = a.id) :
    s' = s ∧ j' = j ∧ a' = a ∧ l' = l := by
  refine h'.eq_of_lease h (congrArg Lease.id (db.lease_eq_of_attempt h'.lease_mem h.lease_mem ?_))
  rw [h'.lease_attempt, ← h'.attempt_id, hid, h.attempt_id, h.lease_attempt]

theorem authorityRows_eq_some (h : authorityRows db scope fence = some (j, a, l)) :
    (j ∈ db.jobs.rows ∧ j.id = fence.jobID ∧ j.scope = scope) ∧
      (a ∈ db.attempts.rows ∧ a.id = fence.attemptID ∧ a.jobID = fence.jobID ∧
        a.workerID = fence.workerID ∧ a.workerSessionID = fence.sessionID ∧ a.scope = scope) ∧
      (l ∈ db.leases.rows ∧ l.id = fence.leaseID ∧ l.attemptID = fence.attemptID ∧
        l.scope = scope) := by
  simp only [authorityRows, Option.bind_eq_bind, Option.bind_eq_some_iff, Option.some.injEq,
    Prod.mk.injEq] at h
  obtain ⟨j', hj, a', ha, l', hl, rfl, rfl, rfl⟩ := h
  obtain ⟨hjm, hjp⟩ := found_of_find? hj
  obtain ⟨ham, hap⟩ := found_of_find? ha
  obtain ⟨hlm, hlp⟩ := found_of_find? hl
  simp only [Bool.and_eq_true, beq_iff_eq] at hjp hap hlp
  obtain ⟨hjid, hjs⟩ := hjp
  obtain ⟨⟨⟨⟨haid, haj⟩, haw⟩, has⟩, hasc⟩ := hap
  obtain ⟨⟨hlid, hla⟩, hls⟩ := hlp
  exact ⟨⟨hjm, hjid, hjs⟩,
    ⟨ham, haid, haj.trans hjid, haw, has, hasc⟩,
    ⟨hlm, hlid, hla.trans haid, hls⟩⟩

theorem Authority.authorityRows_eq (h : Authority db scope fence s j a l) :
    authorityRows db scope fence = some (j, a, l) := by
  have hj : (db.jobs.rows.find? fun j => j.id == fence.jobID && j.scope == scope) = some j := by
    refine find?_eq_some_of_unique h.job_mem (by simp [h.job_id, h.job_scope]) ?_
    intro x hx hp
    simp only [Bool.and_eq_true, beq_iff_eq] at hp
    exact db.job_eq_of_id hx h.job_mem (hp.1.trans h.job_id.symm)
  have ha : (db.attempts.rows.find? fun a =>
      a.id == fence.attemptID && a.jobID == j.id && a.workerID == fence.workerID &&
        a.workerSessionID == fence.sessionID && a.scope == scope) = some a := by
    refine find?_eq_some_of_unique h.attempt_mem ?_ ?_
    · simp [h.attempt_id, h.attempt_job, h.job_id, h.attempt_worker, h.attempt_session,
        h.attempt_scope]
    · intro x hx hp
      simp only [Bool.and_eq_true, beq_iff_eq] at hp
      exact db.attempt_eq_of_id hx h.attempt_mem (hp.1.1.1.1.trans h.attempt_id.symm)
  have hl : (db.leases.rows.find? fun l =>
      l.id == fence.leaseID && l.attemptID == a.id && l.scope == scope) = some l := by
    refine find?_eq_some_of_unique h.lease_mem ?_ ?_
    · simp [h.lease_id, h.lease_attempt, h.attempt_id, h.lease_scope]
    · intro x hx hp
      simp only [Bool.and_eq_true, beq_iff_eq] at hp
      exact db.lease_eq_of_id hx h.lease_mem (hp.1.1.trans h.lease_id.symm)
  simp only [authorityRows, hj, ha, hl, Option.bind_eq_bind, Option.bind_some]

/-- **The locks succeed exactly on the stored binding**, and what they read is
that binding's rows. -/
theorem lockAuthorityRows_eq_ok :
    lockAuthorityRows db scope fence now = .ok st ↔
      ∃ s j a l, Authority db scope fence s j a l ∧ st = FenceState.ofRows scope s j a l now := by
  constructor
  · intro h
    simp only [lockAuthorityRows, bind_eq_ok, fetch_eq_ok, pure_eq_ok] at h
    obtain ⟨r, hr, q, hq, s, hs, ⟨j, a, l⟩, hrows, rfl⟩ := h
    obtain ⟨⟨hjm, hjid, hjs⟩, ⟨ham, haid, haj, haw, has, hasc⟩, ⟨hlm, hlid, hla, hls⟩⟩ :=
      authorityRows_eq_some hrows
    obtain ⟨hrm, hrp⟩ := found_of_find? hr
    obtain ⟨hmem, hqp⟩ := found_of_find? hq
    obtain ⟨hsm, hsp⟩ := found_of_find? hs
    simp only [leaseMatches, sessionMatches, Bool.and_eq_true, beq_iff_eq] at hrp hqp hsp
    obtain ⟨⟨⟨⟨⟨hrid, hrj⟩, hra⟩, hrw⟩, hrs⟩, hrsc⟩ := hrp
    obtain ⟨⟨hsid, hsw⟩, hssc⟩ := hsp
    -- The routed lease and the locked lease have one id, so they are one row.
    obtain rfl : r = l :=
      db.lease_eq_of_id hrm hlm (hrid.trans hlid.symm)
    exact ⟨s, j, a, r, ⟨hsm, hsid, hsw, hssc, hjm, hjid, hjs, ham, haid,
      haj, haw, has, hasc, hlm, hlid, hrj, hla, hrw, hrs, hls,
      ⟨q, hmem, hqp⟩⟩, rfl⟩
  · rintro ⟨s, j, a, l, h, rfl⟩
    have hr : db.leases.rows.find? (leaseMatches scope fence) = some l := by
      refine find?_eq_some_of_unique h.lease_mem ?_ ?_
      · simp [leaseMatches, h.lease_id, h.lease_job, h.lease_attempt, h.lease_worker,
          h.lease_session, h.lease_scope]
      · intro x hx hp
        simp only [leaseMatches, Bool.and_eq_true, beq_iff_eq] at hp
        exact db.lease_eq_of_id hx h.lease_mem (hp.1.1.1.1.1.trans h.lease_id.symm)
    obtain ⟨q, hqm, hqn⟩ := h.queue_known
    obtain ⟨q', hq'⟩ : ∃ q', (db.queues.rows.find? fun q => q.name == l.queue) = some q' := by
      rw [← Option.isSome_iff_exists, List.find?_isSome]
      exact ⟨q, hqm, by simp [hqn]⟩
    have hs : db.sessions.rows.find? (sessionMatches fence.sessionID fence.workerID scope)
        = some s := by
      refine find?_eq_some_of_unique h.session_mem ?_ ?_
      · simp [sessionMatches, h.session_id, h.session_worker, h.session_scope]
      · intro x hx hp
        simp only [sessionMatches, Bool.and_eq_true, beq_iff_eq] at hp
        exact db.session_eq_of_id hx h.session_mem (hp.1.1.trans h.session_id.symm)
    simp only [lockAuthorityRows, bind_eq_ok, fetch_eq_ok, pure_eq_ok]
    exact ⟨l, hr, q', hq', s, hs, (j, a, l), h.authorityRows_eq, rfl⟩

/-- The locks on a binding that holds. -/
theorem Authority.lock (h : Authority db scope fence s j a l) (now : Int) :
    lockAuthorityRows db scope fence now = .ok (FenceState.ofRows scope s j a l now) :=
  lockAuthorityRows_eq_ok.mpr ⟨s, j, a, l, h, rfl⟩

theorem lockFence_eq_ok :
    lockFence db scope fence now = .ok st ↔
      ∃ s j a l, Authority db scope fence s j a l ∧ s.status = .healthy ∧
        st = FenceState.ofRows scope s j a l now := by
  simp only [lockFence, bind_eq_ok, demand_eq_ok, pure_eq_ok, lockAuthorityRows_eq_ok]
  constructor
  · rintro ⟨st', ⟨s, j, a, l, h, rfl⟩, -, hs, rfl⟩
    exact ⟨s, j, a, l, h, by simpa [FenceState.ofRows] using hs, rfl⟩
  · rintro ⟨s, j, a, l, h, hs, rfl⟩
    exact ⟨_, ⟨s, j, a, l, h, rfl⟩, (), by simp [FenceState.ofRows, hs], rfl⟩

/-- The locks fail only by the code's own refusal. -/
theorem lockAuthorityRows_forced (hf : f.cause ≠ .check) :
    lockAuthorityRows db scope fence now = .error f ↔ False := by
  simp only [lockAuthorityRows, bind_eq_error, fetch_forced hf, pure_ne_error, false_or, and_false,
    exists_false]

theorem lockFence_forced (hf : f.cause ≠ .check) :
    lockFence db scope fence now = .error f ↔ False := by
  simp only [lockFence, bind_eq_error, lockAuthorityRows_forced hf, demand_forced hf,
    pure_ne_error, false_or, and_false, exists_false]

end Binding

/-! ## Reading the state -/

section Reading

variable {scope : String} {s : WorkerSession} {j : Job} {a : JobAttempt} {l : Lease} {now : Int}

theorem leaseUsable_ofRows :
    (FenceState.ofRows scope s j a l now).leaseUsable = true ↔
      l.status = .active ∧ now < l.expiresAt := by
  unfold FenceState.leaseUsable
  rw [Bool.and_eq_true, beq_iff_eq, decide_eq_true_eq]
  exact Iff.rfl

theorem timedOut_ofRows :
    (FenceState.ofRows scope s j a l now).timedOut = false ↔
      ∀ t, a.timeoutAt = some t → now < t := by
  show (a.timeoutAt.any fun t => decide (t ≤ now)) = false ↔ _
  cases a.timeoutAt <;> simp

end Reading

end TaskForge
