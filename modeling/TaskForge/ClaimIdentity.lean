/-
What a claim identity stands for (`Claim`, `lookupClaim`).

The id of the notification that woke a worker is the identity of its claim, over
all sessions, workers, queues and scopes. The transaction is taken apart here into
the parts that a concurrent run has to tell apart: what is read before any lock is
held, the rows that are locked, and the decision under the locks. For an identity
that has a lease the decision is fixed by the lease's own columns. The lease is
never deleted and those columns are never rewritten, so it is fixed for good.
-/
import TaskForge.SchemaAgreement

open Relational Fallible

namespace TaskForge

/-! ## The parts of the transaction -/

/-- What `Claim` does before its transaction begins: it checks its arguments and
its configuration, and pre-reads the identity. -/
def claimPreflight (env : Env) (scope : String) (req : ClaimRequest) (db : DB) : Tx Unit := do
  validate (validateClaim req)
  demand (decide (0 < env.leaseDuration)) (.failed "lease duration must be positive")
  demand ((lookupClaim db req.claimRequestID).all fun existing =>
    existing.scope == scope && existing.queue == req.queue) .claimConflict

/-- The rows `Claim` locks, in order. -/
def claimLocks (scope : String) (req : ClaimRequest) (db : DB) : Tx (Queue × WorkerSession) := do
  let queue ← fetch (db.queues.rows.find? fun q => q.name == req.queue) .unknownQueue
  let session ← fetch
    (db.sessions.rows.find? (sessionMatches req.sessionID req.workerID scope)) .sessionUnavailable
  demand (session.status == .healthy) .sessionUnavailable
  pure (queue, session)

section Parts

variable {env : Env} {scope : String} {req : ClaimRequest} {db : DB}

theorem claim_eq :
    claim env scope req db = (do
      claimPreflight env scope req db
      let rows ← claimLocks scope req db
      claimRead env scope req rows.1 rows.2 db (lookupClaim db req.claimRequestID)) := by
  simp only [claim, claimPreflight, claimLocks, bind_assoc, pure_bind]

theorem claimPreflight_eq_ok {u : Unit} :
    claimPreflight env scope req db = .ok u ↔
      validateClaim req = [] ∧ 0 < env.leaseDuration ∧
        ∀ x, lookupClaim db req.claimRequestID = some x → x.scope = scope ∧ x.queue = req.queue := by
  simp only [claimPreflight, bind_eq_ok, validate_eq_ok, demand_eq_ok, decide_eq_true_eq,
    exists_const, Option.all_eq_true, Bool.and_eq_true, beq_iff_eq]

/-- The session and the queue a claim needs. -/
structure Eligible (scope : String) (req : ClaimRequest) (db : DB) : Prop where
  queue : ∃ q ∈ db.queues.rows, q.name = req.queue
  session : ∃ s ∈ db.sessions.rows, s.id = req.sessionID ∧ s.workerID = req.workerID ∧
    s.scope = scope ∧ s.status = .healthy

theorem claimLocks_eq_ok {rows : Queue × WorkerSession} :
    claimLocks scope req db = .ok rows ↔
      rows.1 ∈ db.queues.rows ∧ rows.1.name = req.queue ∧ rows.2 ∈ db.sessions.rows ∧
        rows.2.id = req.sessionID ∧ rows.2.workerID = req.workerID ∧ rows.2.scope = scope ∧
        rows.2.status = .healthy := by
  simp only [claimLocks, bind_eq_ok, fetch_eq_ok, demand_eq_ok, pure_eq_ok, exists_const,
    beq_iff_eq]
  constructor
  · rintro ⟨q, hq, s, hs, hhealthy, rfl⟩
    obtain ⟨hqm, hqn⟩ := found_of_find? hq
    obtain ⟨hsm, hsp⟩ := found_of_find? hs
    simp only [sessionMatches, Bool.and_eq_true, beq_iff_eq] at hsp hqn
    exact ⟨hqm, hqn, hsm, hsp.1.1, hsp.1.2, hsp.2,
      hhealthy⟩
  · -- Both look-ups are by a unique column.
    rintro ⟨hq, hqn, hs, hid, hworker, hscope, hhealthy⟩
    refine ⟨rows.1, ?_, rows.2, ?_, hhealthy, rfl⟩
    · refine find?_eq_some_of_unique hq (beq_iff_eq.mpr hqn) fun p hp hpn => ?_
      exact db.queue_eq_of_name hp hq ((beq_iff_eq.mp hpn).trans hqn.symm)
    · refine find?_eq_some_of_unique hs ?_ fun t ht htm => ?_
      · simp [sessionMatches, hid, hworker, hscope]
      · simp only [sessionMatches, Bool.and_eq_true, beq_iff_eq] at htm
        exact db.session_eq_of_id ht hs (htm.1.1.trans hid.symm)

theorem Eligible.locks (h : Eligible scope req db) : ∃ rows, claimLocks scope req db = .ok rows := by
  obtain ⟨q, hq, hqn⟩ := h.queue
  obtain ⟨s, hs, hid, hworker, hscope, hhealthy⟩ := h.session
  exact ⟨(q, s), claimLocks_eq_ok.mpr ⟨hq, hqn, hs, hid, hworker, hscope, hhealthy⟩⟩

/-- Under the locks a known identity is answered from its assignment, and nothing is
written. -/
theorem claimRead_some (env : Env) (scope : String) (req : ClaimRequest) (queue : Queue)
    (session : WorkerSession) (db : DB) (x : Assignment) :
    (∃ r, claimRead env scope req queue session db (some x) = .ok (r, db)) ∨
      claimRead env scope req queue session db (some x) = .error ⟨.claimConflict, .check⟩ := by
  by_cases hmatch : (x.scope == scope && x.queue == req.queue) = true
  · refine .inl ?_
    simp only [claimRead, demand, ensure, hmatch, if_true, ok_bind, noClaim]
    split_ifs
    · exact ⟨_, rfl⟩
    · exact ⟨_, rfl⟩
  · refine .inr ?_
    simp only [claimRead, demand, ensure, hmatch]
    rfl

end Parts

/-! ## A lease and its identity -/

/-- The assignment describes the job. -/
structure Describes (a : Assignment) (j : Job) : Prop where
  jobID : a.jobID = j.id
  jobType : a.jobType = j.jobType
  payload : a.payload = j.payload
  priority : a.priority = j.priority
  timeoutSeconds : a.timeoutSeconds = j.timeoutSeconds
  capabilities : a.requiredCapabilities = j.requiredCapabilities

section Identity

variable {w : World} {l : Lease}

/-- What is read back for an identity is the assignment of its lease and of the lease's
attempt, and describes a job. -/
theorem lookupClaim_eq_some {db : DB} {claimID : UUID} {x : Assignment}
    (h : lookupClaim db claimID = some x) :
    ∃ m ∈ db.leases.rows, m.claimRequestID = claimID ∧ x.leaseID = m.id ∧
      x.leaseExpiresAt = m.expiresAt ∧
      (∃ b ∈ db.attempts.rows, b.id = m.attemptID ∧ x.attemptNumber = b.attemptNumber) ∧
      ∃ j ∈ db.jobs.rows, Describes x j := by
  simp only [lookupClaim, Option.bind_eq_bind, Option.bind_eq_some_iff, Option.some.injEq] at h
  obtain ⟨m, hm, b, hb, j, hj, rfl⟩ := h
  have hclaim : (m.claimRequestID == claimID) = true := @List.find?_some Lease _ _ _ hm
  have hattempt : (b.id == m.attemptID) = true := @List.find?_some JobAttempt _ _ _ hb
  exact ⟨m, List.mem_of_find?_eq_some hm, beq_iff_eq.mp hclaim, rfl, rfl,
    ⟨b, List.mem_of_find?_eq_some hb, beq_iff_eq.mp hattempt, rfl⟩,
    j, List.mem_of_find?_eq_some hj, rfl, rfl, rfl, rfl, rfl, rfl⟩

theorem lookupClaim_eq_none {db : DB} {claimID : UUID}
    (h : ∀ l ∈ db.leases.rows, l.claimRequestID ≠ claimID) : lookupClaim db claimID = none := by
  have hfind : (db.leases.rows.find? fun l => l.claimRequestID == claimID) = none := by
    rw [List.find?_eq_none]
    intro l hl hid
    exact h l hl (beq_iff_eq.mp hid)
  simp [lookupClaim, hfind]

/-- How a claim of a known identity is answered: its owner gets the assignment
again, another session of the same scope and queue is told that the notification
is a duplicate, and any other scope or queue is a conflict. -/
structure AnsweredFrom (l : Lease) (scope : String) (req : ClaimRequest)
    (outcome : Except Failure Answer) : Prop where
  owner : scope = l.scope → req.queue = l.queue → req.sessionID = l.workerSessionID →
    ∃ x, outcome = .ok (.claimed ⟨.claimed, some x, true⟩) ∧ x.jobID = l.jobID ∧
      x.attemptID = l.attemptID ∧ x.leaseID = l.id
  duplicate : scope = l.scope → req.queue = l.queue → req.sessionID ≠ l.workerSessionID →
    outcome = .ok (.claimed ⟨.duplicateNotification, none, false⟩)
  conflict : scope ≠ l.scope ∨ req.queue ≠ l.queue → outcome = .error ⟨.claimConflict, .check⟩

/-- Name a claim's answer, and forget the tables. -/
def claimOutcome (x : Tx (ClaimResult × DB)) : Except Failure Answer :=
  x.map fun r => .claimed r.1

/-- **The decision under the locks, for a known identity.** -/
theorem Sound.claimRead_answered (h : Sound w) (hl : l ∈ w.db.leases.rows) {env : Env}
    {scope : String} {req : ClaimRequest} {rows : Queue × WorkerSession} {x : Assignment}
    (hx : Assigns l x) (hlocks : claimLocks scope req w.db = .ok rows) :
    AnsweredFrom l scope req (claimOutcome
      (claimRead env scope req rows.1 rows.2 w.db (some x))) := by
  obtain ⟨-, -, hs, hid, hworker, hscope, -⟩ := claimLocks_eq_ok.mp hlocks
  refine ⟨?_, ?_, ?_⟩
  · intro hsc hqu hse
    -- The session's row says whose worker it is, and so does the lease.
    obtain ⟨j, -, a, ha, hbound⟩ := h.run_of_lease hl
    obtain ⟨t, ht, htid, htworker, -⟩ := h.bindings a ha
    have hts : t = rows.2 := w.db.session_eq_of_id ht hs
      (by rw [htid, hid, hse, hbound.session])
    have hw : x.workerID = req.workerID := by
      rw [hx.worker, hbound.worker, ← htworker, hts, hworker]
    refine ⟨{ x with leaseRemaining := remainingUntil x.leaseExpiresAt env.clock.s₁ }, ?_, hx.job,
      hx.attempt, hx.lease⟩
    simp [claimOutcome, claimRead, demand, ensure, hx.scope, hx.queue, hx.session, hw, hsc, hqu, hse,
      pure, Except.pure, Except.map, bind, Except.bind]
  · intro hsc hqu hse
    have hne : x.workerID ≠ req.workerID ∨ x.sessionID ≠ req.sessionID :=
      .inr (by rw [hx.session]; exact hse.symm)
    simp [claimOutcome, claimRead, demand, ensure, noClaim, hx.scope, hx.queue, hne, hsc, hqu, pure,
      Except.pure, Except.map, bind, Except.bind]
  · intro hne
    have hmatch : (x.scope == scope && x.queue == req.queue) = false := by
      rw [hx.scope, hx.queue, Bool.and_eq_false_iff]
      rcases hne with hne | hne
      · exact .inl (beq_eq_false_iff_ne.mpr hne.symm)
      · exact .inr (beq_eq_false_iff_ne.mpr hne.symm)
    simp [claimOutcome, claimRead, demand, ensure, hmatch, Except.map, bind, Except.bind]

end Identity

end TaskForge
