/-
What the schema admits: every row the transactions write.

The Go transactions and the migrations describe the same state machine twice. The
transactions never look at a `CHECK` or an index before they write; what keeps
them clear of both is the guard they hold and the history of the rows they found.
This file compares the two descriptions move by move: the rows a lawful move
writes pass their checks and take no key of another row. It needs three things
from outside the database: that an id drawn for a new row names nothing yet, that
a lease lasts at least a microsecond, and that the text of a registration fits its
columns.

A `CHECK` that a move does not touch is carried over from the row that was there,
so each lemma below is about the two or three that it does.
-/
import TaskForge.Correspondence

open Relational Fallible

namespace TaskForge

/-! ## Admitted writes -/

/-- The rows written to the job's tables are rows their constraints admit. -/
structure Writes.Admitted (w : Writes) (db : DB) : Prop where
  job : db.jobs.Admits w.job
  attempt : db.attempts.Admits w.attempt
  lease : db.leases.Admits w.lease
  events : ∀ e ∈ w.events, db.outbox.Admits (.insert e)
  dlq : ∀ d ∈ w.dlq, db.dlqEntries.Admits (.insert d)
  results : ∀ r ∈ w.results, db.results.Admits (.insert r)

/-- `uuid.New()` drew ids that name no row of the tables they are drawn for. -/
structure Fresh (env : Env) (db : DB) : Prop where
  job : ∀ j ∈ db.jobs.rows, j.id ≠ env.id₁
  attempt : ∀ a ∈ db.attempts.rows, a.id ≠ env.id₁
  lease : ∀ l ∈ db.leases.rows, l.id ≠ env.id₂
  dlqEntry : ∀ d ∈ db.dlqEntries.rows, d.id ≠ env.id₁
  event : ∀ e ∈ db.outbox.rows, e.id ≠ env.id₁ ∧ e.id ≠ env.id₂
  worker : ∀ x ∈ db.workers.rows, x.id ≠ env.id₁
  replacement : ∀ r ∈ db.dlqReplays.rows, r.replacementJobID ≠ env.id₁

instance (env : Env) (db : DB) : Decidable (Fresh env db) :=
  decidable_of_iff
    ((∀ j ∈ db.jobs.rows, j.id ≠ env.id₁) ∧ (∀ a ∈ db.attempts.rows, a.id ≠ env.id₁) ∧
      (∀ l ∈ db.leases.rows, l.id ≠ env.id₂) ∧ (∀ d ∈ db.dlqEntries.rows, d.id ≠ env.id₁) ∧
      (∀ e ∈ db.outbox.rows, e.id ≠ env.id₁ ∧ e.id ≠ env.id₂) ∧
      (∀ x ∈ db.workers.rows, x.id ≠ env.id₁) ∧
      ∀ r ∈ db.dlqReplays.rows, r.replacementJobID ≠ env.id₁)
    ⟨fun ⟨h₁, h₂, h₃, h₄, h₅, h₆, h₇⟩ => ⟨h₁, h₂, h₃, h₄, h₅, h₆, h₇⟩,
      fun ⟨h₁, h₂, h₃, h₄, h₅, h₆, h₇⟩ => ⟨h₁, h₂, h₃, h₄, h₅, h₆, h₇⟩⟩

theorem RowWriteRefused.not_admits {R : Type} {C : Constraints R} {name : TableName} {t : Table C}
    {w : RowWrite R} {f : Failure} (h : RowWriteRefused name t w f) : ¬ t.Admits w := by
  cases w with
  | keep => exact absurd h id
  | insert r =>
    rintro ⟨hcheck, hclash⟩
    obtain ⟨x, hx, hxr⟩ := h.2 hcheck
    rw [hclash x hx] at hxr
    cases hxr
  | replace old new =>
    rintro ⟨hcheck, hclash⟩
    obtain ⟨x, hx, hne, hxr⟩ := h.2 hcheck
    rw [hclash x hx hne] at hxr
    cases hxr

/-- Admitted writes are refused in no table of the job: what is left are the two
records of the identity a job was made under. -/
theorem Writes.Refused.of_admitted {w : Writes} {db : DB} {f : Failure} (h : w.Refused db f)
    (ha : w.Admitted db) (hidem : w.idempotency = []) :
    ∃ r ∈ w.replays, InsertRefused .dlqReplays db.dlqReplays r f := by
  cases h with
  | job h => exact absurd ha.job h.not_admits
  | attempt h => exact absurd ha.attempt h.not_admits
  | lease h => exact absurd ha.lease h.not_admits
  | event e he h => exact absurd (ha.events e he) (RowWriteRefused.not_admits (w := .insert e) h)
  | dlq d hd h => exact absurd (ha.dlq d hd) (RowWriteRefused.not_admits (w := .insert d) h)
  | result r hr h => exact absurd (ha.results r hr) (RowWriteRefused.not_admits (w := .insert r) h)
  | idempotency i hi h =>
    rw [hidem] at hi
    cases hi
  | replay r hr h => exact ⟨r, hr, h⟩

/-- Writes that were made were admitted. -/
theorem Writes.Applied.admitted {w : Writes} {db db' : DB} (h : w.Applied db db')
    (hjob : ∀ old new, w.job = .replace old new → old ∈ db.jobs.rows)
    (hattempt : ∀ old new, w.attempt = .replace old new → old ∈ db.attempts.rows)
    (hlease : ∀ old new, w.lease = .replace old new → old ∈ db.leases.rows) : w.Admitted db where
  job := Table.admits_of_apply h.jobs hjob
  attempt := Table.admits_of_apply h.attempts hattempt
  lease := Table.admits_of_apply h.leases hlease
  events _ he := Table.admits_insert_of_rows h.outbox he
  dlq _ hd := Table.admits_insert_of_rows h.dlqEntries hd
  results _ hr := Table.admits_insert_of_rows h.results hr

/-! ## Jobs -/

section Jobs

variable {db : DB} {j : Job} {now : Int}

theorem admits_job (hj : j ∈ db.jobs.rows) {j' : Job} (hid : j'.id = j.id) (hc : j'.Checked) :
    db.jobs.Admits (.replace j j') := by
  refine db.jobs.admits_replace hj (Job.check_eq_true.mpr hc) fun x _ hx => ?_
  have hkeys : jobs.clash x j' = jobs.clash x j := by
    show sameKey Job.idKey x j' = sameKey Job.idKey x j
    unfold sameKey Job.idKey
    rw [hid]
  rw [hkeys, hx]

/-- The statuses that carry a cancellation stamp. -/
def JobStatus.stamped (s : JobStatus) : Bool := s == .cancelRequested || s == .canceled

theorem JobStatus.stamped_of_executing {s : JobStatus} (h : isExecutingJobStatus s = true) :
    s.stamped = false := by
  cases s <;> cases h <;> rfl

theorem Job.Checked.stamp (h : j.Checked) : j.cancelRequestedAt.isSome = j.status.stamped :=
  beq_iff_eq.mp h.cancellation

/-- A move between statuses without a stamp, that no schedule and no notification
comes with. -/
theorem Job.Checked.move (h : j.Checked) {status : JobStatus} {availableAt : Int}
    (hj : j.status.stamped = false) (hs : status.stamped = false) (hp : status ≠ .pending) :
    ({ j with status := status, availableAt := availableAt, updatedAt := now } : Job).Checked :=
  { h with
    pending := by simp [Job.pendingRequiresSchedule, hp]
    cancellation := by
      have hstamp := h.stamp
      rw [hj] at hstamp
      show (j.cancelRequestedAt.isSome == status.stamped) = true
      rw [hstamp, hs]
      rfl }

/-- A move to the queue, with the notification of the next generation. -/
theorem Job.Checked.enqueue (h : j.Checked) {availableAt : Int} (hj : j.status.stamped = false) :
    ({ j with
      status := .queued
      availableAt := availableAt
      updatedAt := now
      notificationGeneration := j.notificationGeneration + 1
      lastNotificationAt := some now } : Job).Checked :=
  { h with
    pending := rfl
    cancellation := by
      have hstamp := h.stamp
      rw [hj] at hstamp
      show (j.cancelRequestedAt.isSome == JobStatus.stamped .queued) = true
      rw [hstamp]
      rfl
    generation := by simp [Job.notificationGenerationConsistent] }

theorem Job.Checked.renotify (h : j.Checked) (hg : 1 ≤ j.notificationGeneration) :
    (renotifiedJob now j).Checked :=
  { h with
    generation := by
      have hpos : 0 < j.notificationGeneration := hg
      simp [Job.notificationGenerationConsistent, renotifiedJob, hpos] }

/-- A cancellation brings its stamp. -/
theorem Job.Checked.cancel (h : j.Checked) {target : JobStatus}
    (ht : cancelTarget j.status = some target) : (cancelledJob target now j).Checked := by
  have hstamped : target.stamped = true ∧ target ≠ .pending := by
    cases hs : j.status <;> rw [hs] at ht <;> cases ht <;> decide
  exact
    { h with
      pending := by simp [Job.pendingRequiresSchedule, cancelledJob, hstamped.2]
      cancellation := by
        show (true == target.stamped) = true
        rw [hstamped.1]
        rfl }

/-- A completed cancellation keeps it. -/
theorem Job.Checked.complete (h : j.Checked) (hj : j.status = .cancelRequested) :
    (canceledJob now j).Checked :=
  { h with
    pending := rfl
    cancellation := by
      have hstamp := h.stamp
      rw [hj] at hstamp
      show (j.cancelRequestedAt.isSome == JobStatus.stamped .canceled) = true
      rw [hstamp]
      rfl }

theorem Job.Checked.finalize (h : j.Checked) (hj : isExecutingJobStatus j.status = true)
    (d : Decision) : (finalizedJob d now j).Checked := by
  have hstamped := JobStatus.stamped_of_executing hj
  unfold finalizedJob
  split_ifs
  · exact h.move hstamped rfl (by decide)
  · exact h.enqueue hstamped
  · exact h.move hstamped rfl (by decide)

/-- The replacement of a dead letter is a job like it, under an id of its own. -/
theorem Job.Checked.replace (h : j.Checked) {env : Env} (hid : j.id ≠ env.id₁) :
    (replacementJob env j.scope j).Checked :=
  { h with
    replay := by simpa [Job.replayIsNotSelf, replacementJob] using hid
    pending := rfl
    cancellation := rfl
    generation := rfl }

end Jobs

/-! ## Attempts -/

section Attempts

variable {env : Env} {db : DB} {j : Job} {a : JobAttempt} {l : Lease} {now t : Int}

/-- `job_attempts_error_message_bounded`, of one message. -/
def fitsMessage (m : String) : Bool :=
  storable m && decide (octetLength m ≤ 512) && !m.toList.any isControl

/-- A message without control characters has no NUL. -/
theorem fitsMessage_of_no_control {m : String} (hlen : octetLength m ≤ 512)
    (hctl : m.toList.any isControl = false) : fitsMessage m = true := by
  have hnul : storable m = true := by
    rw [storable_eq_true]
    intro hmem
    exact absurd (by decide : isControl '\x00' = true) (List.any_eq_false.mp hctl _ hmem)
  simp [fitsMessage, hnul, hlen, hctl]

/-- An attempt rewritten under its id and its number, with its own outcome identity
or one that no attempt has. -/
theorem admits_attempt (ha : a ∈ db.attempts.rows) {a' : JobAttempt} (hid : a'.id = a.id)
    (hnumber : a'.numberKey = a.numberKey)
    (hout : ∀ o, a'.outcomeRequestID = some o →
      ∀ b ∈ db.attempts.rows, b.outcomeRequestID ≠ some o) (hc : a'.Checked) :
    db.attempts.Admits (.replace a a') := by
  refine db.attempts.admits_replace ha (JobAttempt.check_eq_true.mpr hc) fun x hx hclash => ?_
  simp only [jobAttempts, Bool.or_eq_false_iff] at hclash ⊢
  refine ⟨⟨?_, ?_⟩, ?_⟩
  · rw [← hclash.1.1]
    unfold sameKey JobAttempt.idKey
    rw [hid]
  · rw [← hclash.1.2]
    unfold sameKey
    rw [hnumber]
  · exact sameKey_eq_false.mpr fun o ho => hout o ho x hx

/-- A claim's attempt takes the next number of its job. -/
theorem admits_claimedAttempt (hfresh : ∀ a ∈ db.attempts.rows, a.id ≠ env.id₁) {scope : String}
    {req : ClaimRequest} {n : ℕ} (hscope : scopeBounded scope = true) (hpos : 0 < n)
    (hnumber : ∀ b ∈ db.attempts.rows, b.jobID = j.id → b.attemptNumber ≠ n) :
    db.attempts.Admits (.insert (claimedAttempt env scope req n j)) := by
  constructor
  · exact JobAttempt.check_eq_true.mpr ⟨hscope, hpos, rfl, rfl, rfl, rfl, rfl, rfl, rfl⟩
  · intro x hx
    simp only [jobAttempts, Bool.or_eq_false_iff]
    refine ⟨⟨?_, ?_⟩, ?_⟩
    · refine sameKey_eq_false.mpr fun k hk hxk => ?_
      rw [← hk] at hxk
      exact hfresh x hx (Option.some.inj hxk)
    · refine sameKey_eq_false.mpr fun k hk hxk => ?_
      rw [← hk] at hxk
      have hkey := Prod.mk.inj (Option.some.inj hxk)
      exact hnumber x hx hkey.1 hkey.2
    · exact sameKey_eq_false.mpr fun o ho => by cases ho

/-- A started attempt has its start at or after its creation, and its deadline after
its start. -/
theorem JobAttempt.Checked.start (h : a.Checked) (ha : a.status = .leased) (hcreated : a.createdAt ≤ t)
    {timeout : Int} (hlt : t < timeout) : (startedAttempt t timeout a).Checked := by
  have htimes := h.times
  unfold JobAttempt.timesConsistent at htimes
  rw [ha, Bool.and_eq_true, Option.isNone_iff_eq_none, Option.isNone_iff_eq_none] at htimes
  exact
    { h with
      times := by simp [JobAttempt.timesConsistent, startedAttempt, htimes.2]
      timeline := by simp [JobAttempt.timelineOrder, startedAttempt, htimes.2, hcreated]
      timeout := by simp [JobAttempt.timeoutAfterStart, startedAttempt, hlt] }

/-- An open attempt that ends at `t` ends at or after its start. -/
theorem JobAttempt.Checked.finished_timeline (h : a.Checked) (ho : OpenRun now a l) (hle : now ≤ t)
    {a' : JobAttempt} (hcreated : a'.createdAt = a.createdAt) (hstart : a'.startedAt = a.startedAt)
    (hfinish : a'.finishedAt = some t) : a'.timelineOrder = true := by
  have htimeline := h.timeline
  unfold JobAttempt.timelineOrder at htimeline ⊢
  rw [Bool.and_eq_true] at htimeline ⊢
  rw [hcreated, hstart, hfinish]
  refine ⟨htimeline.1, ?_⟩
  rw [Option.all_some, Option.all_eq_true]
  intro started hs
  have hex := ho.attempt
  cases hst : a.status with
  | leased =>
    rw [(ho.unstarted hst).1] at hs
    cases hs
  | running =>
    obtain ⟨started', timeout, hs', -, hle', -⟩ := ho.started hst
    rw [hs, Option.some.injEq] at hs'
    rw [decide_eq_true_eq, hs']
    exact hle'.trans hle
  | _ =>
    rw [hst] at hex
    cases hex

theorem JobAttempt.Checked.succeed (h : a.Checked) (ho : OpenRun now a l) (hle : now ≤ t)
    (ha : a.status = .running) : (succeededAttempt t a).Checked := by
  obtain ⟨started, timeout, hs, -⟩ := ho.started ha
  exact
    { h with
      times := by simp [JobAttempt.timesConsistent, succeededAttempt, hs]
      timeline := h.finished_timeline ho hle rfl rfl rfl }

theorem JobAttempt.Checked.cancel (h : a.Checked) (ho : OpenRun now a l) (hle : now ≤ t)
    (o : Option UUID) : (canceledAttempt o t a).Checked :=
  { h with
    times := rfl
    timeline := h.finished_timeline ho hle rfl rfl rfl
    failureClass := rfl
    errorCode := by
      show matchesName 63 codeCanceled = true
      decide +kernel
    errorMessage := by
      show fitsMessage messageCanceled = true
      decide +kernel }

/-- What an outcome must be to be stored on the attempt: a recognized class, an
error code and a message within their bounds, and a start where its status has one. -/
structure AttemptOutcome.Fits (o : AttemptOutcome) (a : JobAttempt) : Prop where
  status : o.status = .failed ∨ o.status = .timedOut ∨ o.status = .abandoned
  started : o.status ≠ .abandoned → a.startedAt.isSome = true
  class_ : ∀ word, o.class_ ≠ .other word
  code : matchesName 63 o.errorCode = true
  message : fitsMessage o.errorMessage = true

/-- However an attempt ends, its outcome can be stored. -/
theorem Ends.fits {o : AttemptOutcome} (h : Ends t j a l o) (hc : a.Checked)
    (ho : OpenRun now a l) : o.Fits a := by
  have hrunning : a.status = .running → a.startedAt.isSome = true := by
    intro hs
    obtain ⟨started, timeout, hstarted, -⟩ := ho.started hs
    rw [hstarted]
    rfl
  have hcode : matchesName 63 codeTimeout = true := by decide +kernel
  have hmessage : fitsMessage messageTimeout = true := by decide +kernel
  have htimeout : ∀ ls, a.startedAt.isSome = true → (timeoutOutcome ls).Fits a := by
    intro ls hstarted
    exact ⟨.inr (.inl rfl), fun _ => hstarted, by simp [timeoutOutcome], hcode, hmessage⟩
  cases h with
  | failed s report valid live inTime job attempt =>
    obtain ⟨hclass, hcode, hlen, hctl⟩ := validateFailureReport_eq_nil valid
    refine ⟨.inl rfl, fun _ => hrunning attempt, ?_, hcode, fitsMessage_of_no_control hlen hctl⟩
    intro word hword
    have hword' : report.class_ = .other word := hword
    rw [hword'] at hclass
    rcases hclass with hclass | hclass <;> cases hclass
  | timedOut due => exact htimeout _ (hrunning due.attempt)
  | outlived lapsed job outlived =>
    -- A deadline is stored with the start it counts from.
    obtain ⟨deadline, hdeadline, -⟩ := outlived
    have hafter := hc.timeout
    unfold JobAttempt.timeoutAfterStart at hafter
    rw [hdeadline, Option.all_some] at hafter
    refine htimeout _ ?_
    cases hs : a.startedAt with
    | none => rw [hs] at hafter; cases hafter
    | some started => rfl
  | abandoned lapsed job early =>
    exact ⟨.inr (.inr rfl), fun hne => absurd rfl hne, by simp [abandonedOutcome],
      by decide +kernel, by decide +kernel⟩

theorem JobAttempt.Checked.finalize (h : a.Checked) (ho : OpenRun now a l) (hle : now ≤ t)
    {o : AttemptOutcome} (hfits : o.Fits a) {d : Decision} {n : ℕ} {maxAttempts : Int}
    (hd : d.Sound o.class_ n maxAttempts) : (finalizedAttempt o d t a).Checked :=
  { h with
    times := by
      unfold JobAttempt.timesConsistent finalizedAttempt
      rcases hfits.status with hs | hs | hs
      · simpa [hs] using hfits.started (by simp [hs])
      · simpa [hs] using hfits.started (by simp [hs])
      · simp [hs]
    timeline := h.finished_timeline ho hle rfl rfl rfl
    failureClass := by
      have hclass := hfits.class_
      unfold JobAttempt.failureClassValid finalizedAttempt
      cases hoc : o.class_ with
      | other word => exact absurd hoc (hclass word)
      | _ => rfl
    errorCode := by
      show (nullableString o.errorCode).all (matchesName 63) = true
      unfold nullableString
      split_ifs
      · rfl
      · exact hfits.code
    errorMessage := by
      show (nullableString o.errorMessage).all fitsMessage = true
      unfold nullableString
      split_ifs
      · rfl
      · exact hfits.message
    retry := by
      unfold JobAttempt.retryDecisionConsistent finalizedAttempt
      by_cases hr : d.retry = true
      · obtain ⟨ms, hms, hdelay⟩ := hd.retry_delay hr
        have hstored : storedMillis d = ms := by
          rw [storedMillis, hdelay]
          exact Int.mul_ediv_cancel ms (by decide)
        simp [hr, hstored, hms]
      · simp [hr] }

end Attempts

/-! ## Leases -/

section Leases

variable {env : Env} {db : DB} {j : Job} {l : Lease} {t : Int}

/-- A lease rewritten under its own keys, with a renewal identity that is its own or
that no lease has. -/
theorem admits_lease (hl : l ∈ db.leases.rows) {l' : Lease} (hid : l'.id = l.id)
    (hattempt : l'.attemptID = l.attemptID) (hclaim : l'.claimRequestID = l.claimRequestID)
    (hactive : l'.activeKey = none ∨ l'.activeKey = l.activeKey)
    (hrenewal : l'.lastRenewalRequestID = l.lastRenewalRequestID ∨
      ∀ r, l'.lastRenewalRequestID = some r →
        ∀ m ∈ db.leases.rows, m.lastRenewalRequestID ≠ some r)
    (hc : l'.Checked) : db.leases.Admits (.replace l l') := by
  refine db.leases.admits_replace hl (Lease.check_eq_true.mpr hc) fun x hx hclash => ?_
  simp only [leases, Bool.or_eq_false_iff] at hclash ⊢
  obtain ⟨⟨⟨⟨hxid, hxattempt⟩, hxclaim⟩, hxactive⟩, hxrenewal⟩ := hclash
  refine ⟨⟨⟨⟨?_, ?_⟩, ?_⟩, ?_⟩, ?_⟩
  · rw [← hxid]
    unfold sameKey Lease.idKey
    rw [hid]
  · rw [← hxattempt]
    unfold sameKey Lease.attemptKey
    rw [hattempt]
  · rw [← hxclaim]
    unfold sameKey Lease.claimKey
    rw [hclaim]
  · rcases hactive with hnone | hsame
    · exact sameKey_eq_false.mpr fun k hk => by rw [hnone] at hk; cases hk
    · rw [← hxactive]
      unfold sameKey
      rw [hsame]
  · rcases hrenewal with hsame | hfree
    · rw [← hxrenewal]
      unfold sameKey
      rw [hsame]
    · exact sameKey_eq_false.mpr fun r hr => hfree r hr x hx

/-- What is stored as the end of a lease is after its beginning. -/
theorem lt_leaseExpiry (hdur : 1000 ≤ env.leaseDuration) (now : Int) : now < leaseExpiry env now := by
  unfold leaseExpiry storeTime goTime
  omega

theorem Lease.Checked.renew (h : l.Checked) (hacquired : l.acquiredAt ≤ t) {expiresAt : Int}
    (hlt : t < expiresAt) (r : UUID) : (renewedLease t expiresAt r l).Checked :=
  { h with
    expiry := hacquired.trans_lt hlt
    renewed := ⟨hacquired, hlt⟩
    renewal := by simp [renewedLease] }

theorem Lease.Checked.close (h : l.Checked) (hacquired : l.acquiredAt ≤ t) {ls : LeaseStatus}
    (hls : ls ≠ .active) : (closedLease ls t l).Checked :=
  { h with
    released := by
      intro released hreleased
      cases hreleased
      exact hacquired
    release := by simp [closedLease, hls] }

/-- Closing a lease takes it out of the index of active ones. -/
theorem admits_closedLease (hl : l ∈ db.leases.rows) (hacquired : l.acquiredAt ≤ t)
    {ls : LeaseStatus} (hls : ls ≠ .active) : db.leases.Admits (.replace l (closedLease ls t l)) :=
  admits_lease hl rfl rfl rfl (.inl (if_neg hls)) (.inl rfl)
    ((db.lease_checked hl).close hacquired hls)

/-- A claim's lease. Its claim identity is new, its attempt is, and its job has no
active lease. -/
theorem admits_claimedLease (hfresh : ∀ m ∈ db.leases.rows, m.id ≠ env.id₂) {scope : String}
    {req : ClaimRequest} (hscope : scopeBounded scope = true) (hdur : 1000 ≤ env.leaseDuration)
    (hattempt : ∀ m ∈ db.leases.rows, m.attemptID ≠ env.id₁)
    (hclaim : ∀ m ∈ db.leases.rows, m.claimRequestID ≠ req.claimRequestID)
    (hidle : ∀ m ∈ db.leases.rows, m.jobID = j.id → m.status ≠ .active) :
    db.leases.Admits (.insert (claimedLease env scope req j)) := by
  have hlt := lt_leaseExpiry hdur env.clock.s₁
  constructor
  · refine Lease.check_eq_true.mpr ⟨hscope, hlt, ⟨le_rfl, hlt⟩, ?_, rfl, rfl⟩
    intro released hreleased
    cases hreleased
  · intro x hx
    simp only [leases, Bool.or_eq_false_iff]
    refine ⟨⟨⟨⟨?_, ?_⟩, ?_⟩, ?_⟩, ?_⟩
    · exact sameKey_eq_false.mpr fun k hk hxk => hfresh x hx (Option.some.inj (hxk.trans hk.symm))
    · exact sameKey_eq_false.mpr fun k hk hxk => hattempt x hx (Option.some.inj (hxk.trans hk.symm))
    · exact sameKey_eq_false.mpr fun k hk hxk => hclaim x hx (Option.some.inj (hxk.trans hk.symm))
    · refine sameKey_eq_false.mpr fun k hk hxk => ?_
      have hkj : j.id = k := Option.some.inj hk
      unfold Lease.activeKey at hxk
      split_ifs at hxk with hactive
      exact hidle x hx ((Option.some.inj hxk).trans hkj.symm) hactive
    · exact sameKey_eq_false.mpr fun r hr => by cases hr

end Leases

/-! ## Notifications and dead letters -/

section Inserts

variable {db : DB}

theorem workAvailableEvent_check (id : UUID) (start : Int) (jobID : UUID) (queue : String)
    {generation : ℕ} (hg : 1 ≤ generation) :
    (workAvailableEvent id start jobID queue generation none).check = true := by
  have hkind : lengthBetween 1 64 eventWorkAvailable = true := by decide +kernel
  simp [OutboxEvent.check, OutboxEvent.publishedAtConsistent,
    OutboxEvent.notificationMetadataPaired, workAvailableEvent, workAvailableSchemaVersion, hkind, hg]

theorem admits_event {id : UUID} (hfresh : ∀ e ∈ db.outbox.rows, e.id ≠ id) (start : Int)
    (jobID : UUID) (queue : String) {generation : ℕ} (hg : 1 ≤ generation) :
    db.outbox.Admits (.insert (workAvailableEvent id start jobID queue generation none)) := by
  refine ⟨workAvailableEvent_check id start jobID queue hg, fun x hx => ?_⟩
  exact sameKey_eq_false.mpr fun k hk hxk => hfresh x hx (Option.some.inj (hxk.trans hk.symm))

theorem admits_dlqEntry {e : DLQEntry} (hfresh : ∀ d ∈ db.dlqEntries.rows, d.id ≠ e.id)
    (hscope : scopeBounded e.scope = true) (hnone : ∀ d ∈ db.dlqEntries.rows, d.jobID ≠ e.jobID) :
    db.dlqEntries.Admits (.insert e) := by
  refine ⟨hscope, fun x hx => ?_⟩
  simp only [dlqEntries, Bool.or_eq_false_iff]
  constructor
  · exact sameKey_eq_false.mpr fun k hk hxk => hfresh x hx (Option.some.inj (hxk.trans hk.symm))
  · exact sameKey_eq_false.mpr fun k hk hxk => hnone x hx (Option.some.inj (hxk.trans hk.symm))

end Inserts

/-! ## Sessions -/

section Sessions

variable {db : DB} {s : WorkerSession} {t : Int}

/-- A session rewritten under its own id, current for its worker only if it was. -/
theorem admits_session (hs : s ∈ db.sessions.rows) {s' : WorkerSession} (hid : s'.id = s.id)
    (hcurrent : s'.currentKey = none ∨ s'.currentKey = s.currentKey) (hc : s'.Checked) :
    db.sessions.Admits (.replace s s') := by
  refine db.sessions.admits_replace hs (WorkerSession.check_eq_true.mpr hc) fun x hx hclash => ?_
  simp only [workerSessions, Bool.or_eq_false_iff] at hclash ⊢
  constructor
  · rw [← hclash.1]
    unfold sameKey WorkerSession.idKey
    rw [hid]
  · rcases hcurrent with hnone | hsame
    · exact sameKey_eq_false.mpr fun k hk => by rw [hnone] at hk; cases hk
    · rw [← hclash.2]
      unfold sameKey
      rw [hsame]

theorem admits_beatSession (hs : s ∈ db.sessions.rows) :
    db.sessions.Admits (.replace s (beatSession t s)) := by
  have hc := db.session_checked hs
  exact admits_session hs rfl (.inr rfl)
    { hc with heartbeat := hc.heartbeat.trans (le_max_left _ _) }

/-- A session that ends at or after its registration, and is current no more. -/
theorem admits_endedSession (hs : s ∈ db.sessions.rows) (hle : s.registeredAt ≤ t)
    {status : SessionStatus} (hstatus : isCurrentSessionStatus status = false) :
    db.sessions.Admits (.replace s { s with status := status, endedAt := some t }) := by
  have hc := db.session_checked hs
  refine admits_session hs rfl (.inl ?_) { hc with ended := ?_ }
  · exact if_neg (by simp [hstatus])
  · intro ended hended
    cases hended
    exact hle

/-- A registration that was accepted, with text that fits, is a session row. -/
theorem newSession_checked {registration reg : Registration} {scope : String} (wid : UUID) (now : Int)
    (hreg : normalizeRegistration registration = .ok reg) (hscope : scopeBounded scope = true)
    (hhost : storable reg.hostname = true) : (newSession scope wid reg now).Checked := by
  obtain ⟨-, -, ⟨hpos, hlen⟩, hgroup, hlimit, ⟨hcaps, hcap⟩, htypes, htypes', htype⟩ :=
    normalizeRegistration_eq_ok hreg
  have hlength := (length_le_octetLength reg.hostname).trans hlen
  refine ⟨hscope, ?_, hgroup, hlimit, ⟨hcaps, ?_⟩, ⟨htypes, htypes', ?_⟩, le_rfl, ?_⟩
  · show lengthBetween 1 255 reg.hostname = true
    simp [lengthBetween, hhost, one_le_length hpos, hlength]
  · exact List.all_eq_true.mpr fun c hc => storable_of_matchesName (hcap c hc)
  · exact List.all_eq_true.mpr fun c hc => storable_of_matchesName (htype c hc)
  · intro ended hended
    cases hended

end Sessions

/-! ## Workers, results and replays -/

section Records

variable {db : DB} {env : Env}

/-- The upsert of a worker that is there answers its id. -/
theorem upsertWorker_known {x : Worker} (hx : x ∈ db.workers.rows) :
    ∃ t', upsertWorker env x.scope x.name db.workers = .ok (x.id, t') := by
  have honly : ∀ y ∈ db.workers.rows, (y.scope == x.scope && y.name == x.name) = true → y = x := by
    intro y hy hpy
    simp only [Bool.and_eq_true, beq_iff_eq] at hpy
    refine db.workers.eq_of_clash hy hx (Bool.or_eq_true_iff.mpr (.inr ?_))
    exact sameKey_eq_true.mpr ⟨(x.scope, x.name), by simp [Worker.nameKey, hpy], rfl⟩
  have hp : (x.scope == x.scope && x.name == x.name) = true := by simp
  have hadmits : db.workers.Admits (.replace x (touchedWorker env.clock.s₀ x)) :=
    db.workers.admits_replace hx (db.workers.checked x hx) fun _ _ hclash => hclash
  unfold upsertWorker
  rw [find?_eq_some_of_unique hx hp honly]
  cases hupd : updateRows .workers db.workers (fun w => w.scope == x.scope && w.name == x.name)
      (touchedWorker env.clock.s₀) (reported "upsert logical worker") with
  | ok t' => exact ⟨t', rfl⟩
  | error f =>
    exact absurd hadmits
      (RowWriteRefused.not_admits (w := .replace x _) (updateRows_eq_error hp honly hupd))

/-- The logical worker is made under an id that names nothing, or is there already. -/
theorem upsertWorker_ne_error {scope name : String} {f : Failure}
    (hfresh : ∀ x ∈ db.workers.rows, x.id ≠ env.id₁) (hscope : scopeBounded scope = true)
    (hname : matchesName 127 name = true) : upsertWorker env scope name db.workers ≠ .error f := by
  intro h
  cases hfind : db.workers.rows.find? fun x => x.scope == scope && x.name == name with
  | some x =>
    have hp : x.scope = scope ∧ x.name = name := by simpa using List.find?_some hfind
    have hknown := @upsertWorker_known db env x (List.mem_of_find?_eq_some hfind)
    obtain ⟨t', ht'⟩ := hknown
    rw [hp.1, hp.2, h] at ht'
    cases ht'
  | none =>
    simp only [upsertWorker, hfind, bind_eq_error, pure_ne_error, and_false, exists_false,
      or_false] at h
    refine RowWriteRefused.not_admits (w := .insert _) (insertRow_eq_error h) ⟨?_, fun y hy => ?_⟩
    · simp [workers, hscope, hname]
    · simp only [workers, Bool.or_eq_false_iff]
      constructor
      · refine sameKey_eq_false.mpr fun k hk hyk => hfresh y hy ?_
        exact Option.some.inj (hyk.trans hk.symm)
      · refine sameKey_eq_false.mpr fun k hk hyk => List.find?_eq_none.mp hfind y hy ?_
        have hkey : (y.scope, y.name) = (scope, name) := Option.some.inj (hyk.trans hk.symm)
        simpa using hkey

/-- What `Validate` asks of a result. -/
theorem ResultRef.problem_eq_none {r : ResultRef} (h : r.problem = none) :
    0 ≤ r.sizeBytes ∧
      ((r.location = .inline ∧ (∃ b, r.inline = some b ∧ b ≠ "") ∧ r.bucket = "" ∧ r.key = "" ∧
          r.checksum = "") ∨
        (r.location = .object ∧ r.inline = none ∧ r.bucket ≠ "" ∧ r.key ≠ "" ∧
          r.checksum ≠ "")) := by
  unfold ResultRef.problem at h
  cases hloc : r.location with
  | inline =>
    simp only [hloc] at h
    split_ifs at h with hbody hfields hsize
    push Not at hfields
    refine ⟨not_lt.mp hsize, .inl ⟨rfl, ?_, hfields⟩⟩
    cases hin : r.inline with
    | none => exact absurd (by rw [hin]; rfl) hbody
    | some b => exact ⟨b, rfl, fun hb => hbody (by rw [hin, hb]; rfl)⟩
  | object =>
    simp only [hloc] at h
    split_ifs at h with hbody hplace hsum hsize
    push Not at hplace
    exact ⟨not_lt.mp hsize, .inr ⟨rfl, by simpa using hbody, hplace.1, hplace.2, hsum⟩⟩
  | other word => simp [hloc] at h

/-- An object's checksum is a SHA-256 in lowercase hex. `Validate` asks only that there
is one; the column asks for this. -/
def ResultRef.digested (r : ResultRef) : Bool := r.location != .object || matchesHex64 r.checksum

/-- An inline result is a document the column takes, which `Validate` does not ask. -/
def ResultRef.taken (r : ResultRef) : Bool := r.inline.all fun body => Json.jsonbTakes body.toList

theorem nullableString_all (p : String → Bool) (hp : p "" = true) (s : String) :
    (nullableString s).all p = p s := by
  unfold nullableString
  split_ifs with hs
  · rw [hs, hp]
    rfl
  · rfl

section Results

variable {r : ResultRef} {scope : String}

/-- Of the constraints of `results`, `Validate` leaves one open. -/
theorem resultRow_constraints (start : Int) (jobID attemptID : UUID) (hvalid : r.problem = none)
    (hscope : scopeBounded scope = true) :
    (resultRow start scope jobID attemptID r).constraints = r.digested := by
  obtain ⟨hsize, ⟨hloc, ⟨b, hb, hne⟩, hbu, hk, hsum⟩ | ⟨hloc, hb, hbu, hk, hsum⟩⟩ :=
    ResultRef.problem_eq_none hvalid
  · simp [ResultRow.constraints, ResultRow.locationShape, resultRow, ResultRef.digested,
      nullableString, hscope, hsize, hloc, hb, hne, hbu, hk, hsum]
  · simp [ResultRow.constraints, ResultRow.locationShape, resultRow, ResultRef.digested,
      nullableString, hscope, hsize, hloc, hb, hbu, hk, hsum]

/-- **What the table asks beyond `Validate`**: the digest, and the types of the columns. -/
theorem resultRow_check (start : Int) (jobID attemptID : UUID) (hvalid : r.problem = none)
    (hscope : scopeBounded scope = true) :
    (resultRow start scope jobID attemptID r).check =
      (r.digested && r.taken && storable r.bucket && storable r.key) := by
  have hbody : ((r.inline.bind nullableString).all fun body => Json.jsonbTakes body.toList) =
      r.taken := by
    obtain ⟨-, ⟨-, ⟨b, hb, hne⟩, -⟩ | ⟨-, hb, -⟩⟩ := ResultRef.problem_eq_none hvalid
    · simp [ResultRef.taken, hb, nullableString, hne]
    · simp [ResultRef.taken, hb]
  rw [ResultRow.check, resultRow_constraints start jobID attemptID hvalid hscope]
  simp only [resultRow, hbody, nullableString_all storable (by decide)]

end Results

/-- The identity of a replay is looked up before it is written, so its record is not
refused. -/
theorem replay_identity_admitted {scope key : String} {originalJobID : UUID} {f : Failure}
    (hfresh : Fresh env db) (hkey : lengthBetween 1 255 key = true)
    (h : replay env scope originalJobID key db = .error f) (v : Violation) :
    f.cause ≠ .schema .dlqReplays v := by
  intro hcause
  have hf : f.cause ≠ .check := by simp [hcause]
  have hother : ∀ {t : TableName}, (∃ v, f.cause = .schema t v) → t = .dlqReplays := by
    rintro t ⟨v', hv'⟩
    rw [hcause] at hv'
    cases hv'
    rfl
  simp only [replay, resolveExistingReplay, getByID, insertWorkAvailableTx, bind_eq_error,
    demand_forced hf, fetch_forced hf, lockQueue_forced hf, fetch_eq_ok, ite_eq_error,
    pure_ne_error, false_or, and_false, exists_false, or_false] at h
  obtain ⟨original, horig, -, -, -, -, -, -, hrest⟩ := h
  obtain ⟨hmem, hid, hscope⟩ := jobInScope_eq_some horig
  rcases hrest with hins | ⟨-, -, hunused, hrep | ⟨-, -, -, -, hout⟩⟩
  · cases hother (insertRow_eq_error hins).1
  · refine RowWriteRefused.not_admits (w := .insert _) (insertRow_eq_error hrep) ⟨?_, fun x hx => ?_⟩
    · have hnew : env.id₁ ≠ originalJobID := fun heq => hfresh.job original hmem (hid.trans heq.symm)
      have hbound := (db.job_checked hmem).scope
      rw [hscope] at hbound
      simp [dlqReplays, hbound, hkey, replacementJob, hnew]
    · simp only [dlqReplays, Bool.or_eq_false_iff]
      constructor
      · refine sameKey_eq_false.mpr fun k hk hxk => hunused ?_
        have hident : (x.scope, x.originalJobID, x.idempotencyKey) = (scope, originalJobID, key) :=
          Option.some.inj (hxk.trans hk.symm)
        simp only [Prod.mk.injEq] at hident
        exact List.any_eq_true.mpr ⟨x, hx, by simp [hident]⟩
      · refine sameKey_eq_false.mpr fun k hk hxk => hfresh.replacement x hx ?_
        exact Option.some.inj (hxk.trans hk.symm)
  · cases hother (insertRow_eq_error hout).1

end Records

end TaskForge
