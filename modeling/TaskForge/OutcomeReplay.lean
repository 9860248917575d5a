/-
Reports that are sent again.

A worker that did not hear the answer to `Fail`, `AcknowledgeCancellation` or
`Succeed` sends the report again, possibly much later. The store answers from the
attempt's row alone: its status, class and stored delay. That row is finished, so
it stays, and the answer read off it is the one the first report got. What the
job and the session have become in the meantime plays no part.
-/
import TaskForge.Permanence

open Relational Fallible

namespace TaskForge

/-! ## What the attempt's row says -/

/-- What a report says happened: class, code and message. -/
def FailureReport.body (r : FailureReport) : Option FailureClass × String × String :=
  (some r.class_, r.errorCode, r.errorMessage)

/-- What an attempt's row says happened. -/
def JobAttempt.body (a : JobAttempt) : Option FailureClass × String × String :=
  (a.failureClass, derefString a.errorCode, derefString a.errorMessage)

/-- The job status an attempt's row says was decided. -/
def JobAttempt.decided (a : JobAttempt) : JobStatus :=
  if a.status = .canceled then .canceled
  else match a.retryDelayMs with
    | none => .deadLettered
    | some 0 => .queued
    | some _ => .retryWait

/-- The answer an attempt's row gives to its report sent again. -/
def JobAttempt.answer (jobID : UUID) (a : JobAttempt) : OutcomeResult where
  jobID := jobID
  jobStatus := a.decided
  attemptStatus := a.status
  retryAt := a.retryAt
  retryDelay := a.retryDelayMs.map (· * millisecond)
  deadLetterReason :=
    if a.decided = .deadLettered then
      if a.failureClass = some .permanent then some .permanentFailure else some .attemptsExhausted
    else none
  replayed := true

/-- The refusal of a report whose identity belongs to something else. -/
def outcomeConflict : Failure := ⟨.outcomeConflict, .check⟩

section Row

variable {scope : String} {s : WorkerSession} {j : Job} {a : JobAttempt} {l : Lease} {now : Int}

/-- `replayedOutcome` reads nothing but the attempt. -/
theorem replayedOutcome_ofRows {report : FailureReport} :
    replayedOutcome (FenceState.ofRows scope s j a l now) report
      = if a.body = report.body then .ok (a.answer report.fence.jobID)
        else .error outcomeConflict := by
  show (do
    demand (a.failureClass == some report.class_) .outcomeConflict
    demand (derefString a.errorCode == report.errorCode &&
      derefString a.errorMessage == report.errorMessage) .outcomeConflict
    pure (a.answer report.fence.jobID)) = _
  by_cases hclass : a.failureClass = some report.class_
  · by_cases htext : derefString a.errorCode = report.errorCode ∧
        derefString a.errorMessage = report.errorMessage
    · rw [if_pos (by rw [JobAttempt.body, FailureReport.body, hclass, htext.1, htext.2])]
      simp [hclass, htext.1, htext.2, demand, ensure, ok_bind, pure, Except.pure]
    · rw [if_neg (by simp [JobAttempt.body, FailureReport.body, hclass, htext])]
      rw [show (derefString a.errorCode == report.errorCode &&
        derefString a.errorMessage == report.errorMessage) = false by
          simpa [Bool.and_eq_false_iff, not_and_or] using htext]
      simp [hclass, demand, ensure, ok_bind, outcomeConflict]
  · rw [if_neg (by simp [JobAttempt.body, FailureReport.body, hclass])]
    simp [hclass, demand, ensure, error_bind, outcomeConflict]

/-- The row a failure report leaves says what the report said. -/
theorem finalizedAttempt_body (report : FailureReport) (d : Decision) :
    (finalizedAttempt (failedOutcome report) d now a).body = report.body := by
  simp [JobAttempt.body, FailureReport.body, finalizedAttempt, failedOutcome,
    derefString_nullableString]

/-- The decision is read back from the stored delay: a stored delay is a whole
number of milliseconds, none when the job is dead, zero when it was requeued. -/
theorem finalizedAttempt_decided (report : FailureReport) {d : Decision} {used : ℕ} {max : Int}
    (hd : d.Sound report.class_ used max) :
    (finalizedAttempt (failedOutcome report) d now a).decided = (finalizedJob d now j).status := by
  unfold JobAttempt.decided finalizedJob
  rw [if_neg (by simp [finalizedAttempt, failedOutcome])]
  by_cases hretry : d.retry = true
  · obtain ⟨ms, hms, hdelay⟩ := hd.retry_delay hretry
    have hstored : storedMillis d = ms := by
      rw [storedMillis, hdelay]
      exact Int.mul_ediv_cancel _ (by decide)
    simp only [finalizedAttempt, hretry, if_true, hstored]
    by_cases hzero : ms = 0
    · simp [hzero, requeuedJob]
    · have hpos : 0 < ms := by omega
      rw [if_pos hpos]
      cases ms with
      | ofNat n =>
        cases n with
        | zero => exact absurd rfl hzero
        | succ n => rfl
      | negSucc n => exact absurd hms (by simp)
  · simp [finalizedAttempt, hretry, movedJob]

/-- **The reconstruction inverts the decision.** The row a failure report leaves
answers as the report was answered. -/
theorem finalizedAttempt_answer (report : FailureReport) {d : Decision} {used : ℕ} {max : Int}
    (hd : d.Sound report.class_ used max) :
    (finalizedAttempt (failedOutcome report) d now a).answer j.id
      = { finalizeResult (failedOutcome report) d now j with replayed := true } := by
  unfold JobAttempt.answer finalizeResult
  rw [finalizedAttempt_decided (j := j) report hd]
  by_cases hretry : d.retry = true
  · have halive : (finalizedJob d now j).status ≠ .deadLettered := by
      rw [finalizedJob, if_pos hretry]
      split <;> simp [movedJob, requeuedJob]
    rw [if_neg halive, if_pos hretry, if_pos hretry, if_pos hretry]
    simp [finalizedAttempt, hretry, failedOutcome]
  · have hdead : (finalizedJob d now j).status = .deadLettered := by
      rw [finalizedJob, if_neg hretry]
      rfl
    rw [if_pos hdead, if_neg hretry, if_neg hretry, if_neg hretry,
      hd.dead_reason (by simpa using hretry)]
    by_cases hperm : report.class_ = .permanent <;>
      simp [finalizedAttempt, hretry, failedOutcome, hperm]

end Row

/-! ## What the operations answer about a recorded attempt -/

section Recorded

variable {env : Env} {db : DB} {scope : String} {s : WorkerSession} {j : Job} {a : JobAttempt}
  {l : Lease}
variable {b : JobAttempt} {o : UUID} {fence : Fence}

theorem validate_nil : validate [] = .ok () := rfl

/-- `Fail` under an identity the attempt holds. -/
theorem fail_recorded {report : FailureReport} (hA : Authority db scope report.fence s j a l)
    (hvalid : validateFailureReport report = [])
    (hown : a.outcomeRequestID = some report.outcomeRequestID) :
    fail env scope report db
      = if a.body = report.body then .ok (a.answer report.fence.jobID, db)
        else .error outcomeConflict := by
  have hstate : (FenceState.ofRows scope s j a l env.clock.s₀).outcomeRequestID
      = some report.outcomeRequestID := hown
  rw [fail, hvalid, validate_nil, ok_bind, hA.lock, ok_bind, if_pos hstate, replayedOutcome_ofRows]
  split <;> rfl

/-- `AcknowledgeCancellation` under an identity the attempt holds. -/
theorem acknowledgeCancellation_recorded {ack : CancelAcknowledgment}
    (hA : Authority db scope ack.fence s j a l) (hvalid : validateCancelAcknowledgment ack = [])
    (hown : a.outcomeRequestID = some ack.outcomeRequestID) :
    acknowledgeCancellation env scope ack db
      = if a.status = .canceled then
          .ok (⟨ack.fence.jobID, .canceled, .canceled, none, none, none, true⟩, db)
        else .error outcomeConflict := by
  have hstate : (FenceState.ofRows scope s j a l env.clock.s₀).outcomeRequestID
      = some ack.outcomeRequestID := hown
  rw [acknowledgeCancellation, hvalid, validate_nil, ok_bind, hA.lock, ok_bind, if_pos hstate]
  by_cases hcanceled : a.status = .canceled
  · simp [FenceState.ofRows, hcanceled, decidedJobStatus, demand, ensure, ok_bind, pure, Except.pure]
  · simp [FenceState.ofRows, hcanceled, demand, ensure, outcomeConflict]

/-- An identity held by another attempt is refused under a fence that holds. -/
theorem rejectForeignOutcomeIdentity_taken {attemptID : UUID} (hb : b ∈ db.attempts.rows)
    (ho : b.outcomeRequestID = some o) (hne : b.id ≠ attemptID) :
    rejectForeignOutcomeIdentity db o attemptID = .error outcomeConflict := by
  have hfind : (db.attempts.rows.find? fun a => a.outcomeRequestID == some o) = some b := by
    refine find?_eq_some_of_unique hb (by simp [ho]) fun x hx hp => ?_
    exact db.attempt_eq_of_outcome hx hb (by simpa using hp) ho
  rw [rejectForeignOutcomeIdentity, hfind]
  simp [demand, ensure, hne, outcomeConflict]

/-- The attempt a fence names does not hold another's identity. -/
theorem Authority.identity_foreign (hA : Authority db scope fence s j a l)
    (hb : b ∈ db.attempts.rows) (ho : b.outcomeRequestID = some o) (hne : fence.attemptID ≠ b.id) :
    a.outcomeRequestID ≠ some o := by
  intro hao
  have hab := db.attempt_eq_of_outcome hA.attempt_mem hb hao ho
  exact hne (hA.attempt_id.symm.trans (congrArg JobAttempt.id hab))

/-- Every attempt but this one is refused the identity `o`, through either
operation. -/
structure Reserved (db : DB) (attemptID o : UUID) : Prop where
  fail : ∀ env scope report s j a l, Authority db scope report.fence s j a l →
    report.fence.attemptID ≠ attemptID → report.outcomeRequestID = o →
    validateFailureReport report = [] →
    TaskForge.fail env scope report db = .error outcomeConflict
  acknowledge : ∀ env scope ack s j a l, Authority db scope ack.fence s j a l →
    ack.fence.attemptID ≠ attemptID → ack.outcomeRequestID = o →
    validateCancelAcknowledgment ack = [] →
    acknowledgeCancellation env scope ack db = .error outcomeConflict

theorem reserved_of_recorded (hb : b ∈ db.attempts.rows) (ho : b.outcomeRequestID = some o) :
    Reserved db b.id o where
  fail env scope report s j a l hA hne hro hvalid := by
    have hown := hA.identity_foreign hb ho hne
    have hstate : (FenceState.ofRows scope s j a l env.clock.s₀).outcomeRequestID
        ≠ some report.outcomeRequestID := by rw [hro]; exact hown
    rw [TaskForge.fail, hvalid, validate_nil, ok_bind, hA.lock, ok_bind, if_neg hstate, hro,
      rejectForeignOutcomeIdentity_taken hb ho hne.symm, error_bind]
  acknowledge env scope ack s j a l hA hne hro hvalid := by
    have hown := hA.identity_foreign hb ho hne
    have hstate : (FenceState.ofRows scope s j a l env.clock.s₀).outcomeRequestID
        ≠ some ack.outcomeRequestID := by rw [hro]; exact hown
    rw [acknowledgeCancellation, hvalid, validate_nil, ok_bind, hA.lock, ok_bind, if_neg hstate, hro,
      rejectForeignOutcomeIdentity_taken hb ho hne.symm, error_bind]

/-- `Succeed` on a job that succeeded under this fence. -/
theorem succeed_recorded {result : Option ResultRef} (hA : Authority db scope fence s j a l)
    (hvalid : validateFence fence = []) (hj : j.status = .succeeded) (ha : a.status = .succeeded)
    (hl : l.status = .completed) :
    succeed env scope fence result db = .ok ((), db) := by
  rw [succeed, hvalid, validate_nil, ok_bind, hA.lock, ok_bind]
  exact if_pos ⟨hj, ha, hl⟩

end Recorded

/-! ## From the first report on -/

section Runs

variable {w w' w'' : World} {trace : List Label} {scope : String} {fence : Fence}
  {s : WorkerSession} {j : Job} {a : JobAttempt} {l : Lease}
variable {env : Env} {db db' : DB} {report : FailureReport} {r : OutcomeResult}
  {ack : CancelAcknowledgment} {result : Option ResultRef} {u : Unit}

/-- An attempt with an outcome identity is over. -/
theorem Sound.reported_closed (h : Sound w) (ha : a ∈ w.db.attempts.rows) {o : UUID}
    (ho : a.outcomeRequestID = some o) : isExecutingAttemptStatus a.status = false := by
  obtain ⟨j, hj, hjob⟩ := h.job_of_attempt ha
  by_contra hex
  rw [Bool.not_eq_false] at hex
  obtain ⟨past, pastLeases, l, run⟩ :=
    (h.phase hj).run_of_executing (mem_caseFile_attempts.mpr ⟨ha, hjob.symm⟩) hex
  rw [run.open_.unreported] at ho
  cases ho

/-- The lease of an attempt that is over is not active. -/
theorem Sound.lease_closed (h : Sound w) (hA : Authority w.db scope fence s j a l)
    (ha : isExecutingAttemptStatus a.status = false) : l.status ≠ .active := by
  obtain ⟨m, hm, hma, huniq, hiff⟩ := h.lease_of_attempt hA.attempt_mem
  have hlm : l = m := huniq l hA.lease_mem (hA.lease_attempt.trans hA.attempt_id.symm)
  intro hactive
  rw [hiff.mp (hlm ▸ hactive)] at ha
  cases ha

/-- A fence whose attempt is over finds it, and its lease, in every continuation. -/
theorem Sound.authority_later (h : Sound w) (hrun : Execution w trace w')
    (hA : Authority w.db scope fence s j a l) (ha : isExecutingAttemptStatus a.status = false) :
    ∃ s' j', Authority w'.db scope fence s' j' a l :=
  hA.later (h.permanent hrun) (traceable_of_run hrun) ha (h.lease_closed hA ha)

/-! ### The rows a first report leaves -/

theorem fail_valid {r : OutcomeResult × DB} (h : fail env scope report db = .ok r) :
    validateFailureReport report = [] := by
  simp only [fail, bind_eq_ok, validate_eq_ok] at h
  obtain ⟨-, hvalid, -⟩ := h
  exact hvalid

theorem acknowledgeCancellation_valid {r : OutcomeResult × DB}
    (h : acknowledgeCancellation env scope ack db = .ok r) :
    validateCancelAcknowledgment ack = [] := by
  simp only [acknowledgeCancellation, bind_eq_ok, validate_eq_ok] at h
  obtain ⟨-, hvalid, -⟩ := h
  exact hvalid

theorem succeed_valid {r : Unit × DB} (h : succeed env scope fence result db = .ok r) :
    validateFence fence = [] := by
  simp only [succeed, bind_eq_ok, validate_eq_ok] at h
  obtain ⟨-, hvalid, -⟩ := h
  exact hvalid

/-- A failure report that is answered leaves a row that holds its identity and says
what it said; a first one was answered as the row answers. -/
theorem fail_rows (h : fail env scope report db = .ok (r, db')) :
    ∃ s j a l, Authority db' scope report.fence s j a l ∧
      a.outcomeRequestID = some report.outcomeRequestID ∧ a.body = report.body ∧
      (r.replayed = false →
        a.status = .failed ∧ a.answer report.fence.jobID = { r with replayed := true }) := by
  obtain ⟨s, j, a, l, hA, ⟨hown, rfl⟩ | ⟨d, hready, rfl, happ⟩⟩ := fail_eq_ok h
  · rw [fail_recorded hA (fail_valid h) hown] at h
    split at h
    · next hbody =>
      -- An answer from the row says that it is one.
      cases h
      exact ⟨s, j, a, l, hA, hown, hbody, fun hr => by cases hr⟩
    · cases h
  · refine ⟨s, _, _, _, hA.moved happ rfl rfl rfl (finalizedJob_definition d _ j) rfl rfl rfl, rfl,
      finalizedAttempt_body report d, fun _ => ⟨rfl, ?_⟩⟩
    rw [← hA.job_id]
    exact finalizedAttempt_answer report (decide_sound hready.decision)

theorem acknowledgeCancellation_rows (h : acknowledgeCancellation env scope ack db = .ok (r, db')) :
    ∃ s j a l, Authority db' scope ack.fence s j a l ∧
      a.outcomeRequestID = some ack.outcomeRequestID ∧ a.status = .canceled ∧
      (r.replayed = false → a.failureClass = some .canceled ∧
        r = ⟨ack.fence.jobID, .canceled, .canceled, none, none, none, false⟩) := by
  obtain ⟨s, j, a, l, hA, ⟨hown, rfl⟩ | ⟨hready, rfl, happ⟩⟩ := acknowledgeCancellation_eq_ok h
  · rw [acknowledgeCancellation_recorded hA (acknowledgeCancellation_valid h) hown] at h
    split at h
    · next hcanceled =>
      cases h
      exact ⟨s, j, a, l, hA, hown, hcanceled, fun hr => by cases hr⟩
    · cases h
  · refine ⟨s, _, _, _, hA.moved happ rfl rfl rfl rfl rfl rfl rfl, rfl, rfl, fun _ => ⟨rfl, ?_⟩⟩
    rw [hA.job_id]

/-- A success leaves its rows succeeded, whether it is the first or not. -/
theorem succeed_rows (h : succeed env scope fence result db = .ok (u, db')) :
    ∃ s j a l, Authority db' scope fence s j a l ∧ j.status = .succeeded ∧ a.status = .succeeded ∧
      l.status = .completed := by
  obtain ⟨s, j, a, l, hA, ⟨hj, ha, hl, rfl⟩ | ⟨hready, happ⟩⟩ := succeed_eq_ok h
  · exact ⟨s, j, a, l, hA, hj, ha, hl⟩
  · exact ⟨s, _, _, _, hA.moved happ rfl rfl rfl rfl rfl rfl rfl, rfl, rfl, rfl⟩

/-! ### Every later state -/

/-- How `db` answers a failure report that was recorded with result `r`, and
everything that reuses its identity. -/
structure FailureRecorded (db : DB) (scope : String) (report : FailureReport) (r : OutcomeResult) :
    Prop where
  /-- The same report gets the same answer, marked as a replay, and writes nothing. -/
  replay : ∀ env, fail env scope report db = .ok ({ r with replayed := true }, db)
  /-- Another body under the same identity. -/
  body : ∀ env other, other.fence = report.fence →
    other.outcomeRequestID = report.outcomeRequestID → validateFailureReport other = [] →
    other ≠ report → fail env scope other db = .error outcomeConflict
  /-- The same identity through the other operation. -/
  operation : ∀ env ack, ack.fence = report.fence →
    ack.outcomeRequestID = report.outcomeRequestID → validateCancelAcknowledgment ack = [] →
    acknowledgeCancellation env scope ack db = .error outcomeConflict
  /-- The same identity under another attempt's fence. -/
  foreign : Reserved db report.fence.attemptID report.outcomeRequestID

/-- How `db` answers an acknowledgment that was recorded with result `r`, and
everything that reuses its identity. -/
structure AcknowledgmentRecorded (db : DB) (scope : String) (ack : CancelAcknowledgment)
    (r : OutcomeResult) : Prop where
  replay : ∀ env, acknowledgeCancellation env scope ack db = .ok ({ r with replayed := true }, db)
  operation : ∀ env report, report.fence = ack.fence →
    report.outcomeRequestID = ack.outcomeRequestID → validateFailureReport report = [] →
    fail env scope report db = .error outcomeConflict
  foreign : Reserved db ack.fence.attemptID ack.outcomeRequestID

theorem failure_recorded (hstep : fail env scope report db = .ok (r, w.db))
    (hr : r.replayed = false) (h : Sound w) (hrun : Execution w trace w') :
    FailureRecorded w'.db scope report r := by
  obtain ⟨s, j, a, l, hA, ho, hbody, hfirst⟩ := fail_rows hstep
  obtain ⟨hstatus, hanswer⟩ := hfirst hr
  have hvalid := fail_valid hstep
  obtain ⟨s', j', hA'⟩ := h.authority_later hrun hA (h.reported_closed hA.attempt_mem ho)
  refine ⟨fun env' => ?_, fun env' other hfence hid hother hne => ?_,
    fun env' ack hfence hid hack => ?_, ?_⟩
  · rw [fail_recorded hA' hvalid ho, if_pos hbody, hanswer]
  · rw [← hfence] at hA'
    rw [fail_recorded hA' hother (by rw [ho, hid]), if_neg ?_]
    intro hsame
    rw [hbody] at hsame
    obtain ⟨f, o, c, e, m⟩ := report
    obtain ⟨f', o', c', e', m'⟩ := other
    simp only [FailureReport.body, Prod.mk.injEq, Option.some.injEq] at hsame hfence hid
    obtain ⟨rfl, rfl, rfl⟩ := hsame
    exact hne (by rw [hfence, hid])
  · rw [← hfence] at hA'
    rw [acknowledgeCancellation_recorded hA' hack (by rw [ho, hid]), if_neg (by rw [hstatus]; simp)]
  · rw [← hA'.attempt_id]
    exact reserved_of_recorded hA'.attempt_mem ho

theorem acknowledgment_recorded (hstep : acknowledgeCancellation env scope ack db = .ok (r, w.db))
    (hr : r.replayed = false) (h : Sound w) (hrun : Execution w trace w') :
    AcknowledgmentRecorded w'.db scope ack r := by
  obtain ⟨s, j, a, l, hA, ho, hstatus, hfirst⟩ := acknowledgeCancellation_rows hstep
  obtain ⟨hclass, rfl⟩ := hfirst hr
  have hvalid := acknowledgeCancellation_valid hstep
  obtain ⟨s', j', hA'⟩ := h.authority_later hrun hA (h.reported_closed hA.attempt_mem ho)
  refine ⟨fun env' => ?_, fun env' report hfence hid hreport => ?_, ?_⟩
  · rw [acknowledgeCancellation_recorded hA' hvalid ho, if_pos hstatus]
  · rw [← hfence] at hA'
    rw [fail_recorded hA' hreport (by rw [ho, hid]), if_neg ?_]
    intro hsame
    -- A worker may not report `CANCELED`, so no valid report has this row's class.
    have hreported := congrArg Prod.fst hsame
    rw [JobAttempt.body, FailureReport.body, hclass] at hreported
    rcases (validateFailureReport_eq_nil hreport).1 with hc | hc <;>
      simp [hc] at hreported
  · rw [← hA'.attempt_id]
    exact reserved_of_recorded hA'.attempt_mem ho

theorem success_recorded (hstep : succeed env scope fence result db = .ok (u, w.db)) (h : Sound w)
    (hrun : Execution w trace w') (env' : Env) (result' : Option ResultRef) :
    succeed env' scope fence result' w'.db = .ok ((), w'.db) := by
  obtain ⟨s, j, a, l, hA, hj, ha, hl⟩ := succeed_rows hstep
  obtain ⟨s', j', hA'⟩ := h.authority_later hrun hA (by rw [ha]; rfl)
  have hkept := (h.permanent hrun).job j hA.job_mem (by rw [hj]; rfl)
  have hjj : j' = j :=
    w'.db.job_eq_of_id hA'.job_mem hkept (hA'.job_id.trans hA.job_id.symm)
  exact succeed_recorded hA' (succeed_valid hstep) (by rw [hjj, hj]) ha hl

/-- A first `Fail` or `AcknowledgeCancellation` that commits is answered the same
way for ever, and its identity with it; so is a `Succeed`. In every reachable
state an identity is stored on one attempt at most. -/
theorem outcome_replays (h : Reachable w) (hrun : Execution w' trace w'') :
    (∀ env scope report r, Step w ⟨⟨env, .fail scope report⟩, .ok (.failed r)⟩ w' →
      r.replayed = false → FailureRecorded w''.db scope report r) ∧
    (∀ env scope ack r,
      Step w ⟨⟨env, .acknowledgeCancellation scope ack⟩, .ok (.acknowledged r)⟩ w' →
      r.replayed = false → AcknowledgmentRecorded w''.db scope ack r) ∧
    (∀ env scope fence result, Step w ⟨⟨env, .succeed scope fence result⟩, .ok .succeeded⟩ w' →
      ∀ env' result', succeed env' scope fence result' w''.db = .ok ((), w''.db)) ∧
    ∀ a ∈ w.db.attempts.rows, ∀ b ∈ w.db.attempts.rows, ∀ o, a.outcomeRequestID = some o →
      b.outcomeRequestID = some o → a = b := by
  refine ⟨?_, ?_, ?_, ?_⟩
  · intro env scope report r hstep hr
    have hsound := (h.step hstep).sound
    obtain ⟨_, hcall, hans⟩ := answering_eq_ok.mp (hstep.ran rfl rfl)
    cases hans
    exact failure_recorded hcall hr hsound hrun
  · intro env scope ack r hstep hr
    have hsound := (h.step hstep).sound
    obtain ⟨_, hcall, hans⟩ := answering_eq_ok.mp (hstep.ran rfl rfl)
    cases hans
    exact acknowledgment_recorded hcall hr hsound hrun
  · intro env scope fence result hstep
    have hsound := (h.step hstep).sound
    obtain ⟨u, hcall⟩ := hstep.succeeded rfl rfl
    exact success_recorded hcall hsound hrun
  · intro a ha b hb o hao hbo
    exact w.db.attempt_eq_of_outcome ha hb hao hbo

end Runs

/-- The report that failed the sample attempt, asked about again after the job was
promoted and claimed for its second attempt. -/
theorem outcome_replays_after_retry :
    ((quiet.exec sampleStart).2.step sampleFail).1.outcome
        = .ok (.failed ⟨2, .retryWait, .failed, some 1000005, some 1000000000, none, false⟩) ∧
      FailureRecorded (((quiet.exec sampleStart).2.step sampleFail).2.exec sampleRetry).2.db "tenant"
        sampleReport ⟨2, .retryWait, .failed, some 1000005, some 1000000000, none, false⟩ := by
  obtain ⟨hclock, hout, hlater⟩ : (quiet.exec sampleStart).2.clock ≤ 5 ∧
      ((quiet.exec sampleStart).2.step sampleFail).1.outcome
        = .ok (.failed ⟨2, .retryWait, .failed, some 1000005, some 1000000000, none, false⟩) ∧
      Clocked ((quiet.exec sampleStart).2.step sampleFail).2.clock sampleRetry := by decide +kernel
  exact ⟨hout, (outcome_replays (quiet_reachable (by decide))
    (@World.exec_run sampleRetry _ hlater)).1 _ _ _ _
    (@World.step_committed _ sampleFail _ hclock hout) rfl⟩

end TaskForge
