/-
Recovery is always enabled.

A job that is not over is waiting for an instant, waiting for a worker, or in the
hands of one. Whatever happened to the workers, the first is promoted once its
instant has come, and the last is taken back once its lease has run out: no
branch of `promoteDueJob` or of `reconcileExpiredLease` that skips, rejects or
fails can be taken in a state the system reaches.

The argument has three parts. The rows the reconciler locks are there, because
the case file of an executing job ends in an open run and the run is bound to its
session and its queue. The code's own checks hold on them: a decision exists for
both classes, and a dead letter has its reason. And the schema refuses no row.
-/
import TaskForge.SchemaAgreement

open Relational Fallible

namespace TaskForge

/-! ## The code's own checks -/

section Checks

variable {env : Env} {db : DB} {scope : String} {fence : Fence} {s : WorkerSession} {j : Job}
  {a : JobAttempt} {l : Lease} {now : Int} {f : Failure} {stats : ReconcileStats}
variable {jobID : UUID} {d : Decision} {p : RetryPolicy} {class_ : FailureClass} {n used : ℕ}
  {maxAttempts : Int} {backoff : ℕ → F64}

theorem requeueJob_cause (h : requeueJob db.jobs jobID now = .error f) :
    f.cause ≠ .check := by
  simp only [requeueJob, bind_eq_error, pure_ne_error, and_false, exists_false, or_false] at h
  exact updateReturning_cause h

/-- A notification of a generation that has begun is not refused by the code. -/
theorem insertWorkAvailableTx_cause {id : UUID} {start : Int} {queue : String} {generation : ℕ}
    {trace : Option TraceContext} (hgen : 1 ≤ generation)
    (h : insertWorkAvailableTx db.outbox id start jobID queue generation trace = .error f) :
    f.cause ≠ .check := by
  simp only [insertWorkAvailableTx, bind_eq_error, demand, ensure_eq_error] at h
  rcases h with ⟨hno, -⟩ | ⟨-, -, hins⟩
  · exact absurd hgen (by simpa using hno)
  · exact insertRow_cause hins

/-- A decision that retries or says why not lets `finalizeAttempt` through. -/
theorem finalizeAttempt_cause {o : AttemptOutcome} (hA : Authority db scope fence s j a l)
    (hreason : d.retry = false → d.deadLetterReason ≠ none)
    (h : finalizeAttempt env db (FenceState.ofRows scope s j a l now) fence o d = .error f) :
    f.cause ≠ .check := by
  simp only [finalizeAttempt, bind_eq_error, ite_eq_error, pure_ne_error, and_false, exists_false,
    or_false] at h
  rcases h with hatt | ⟨row, -, hlease | ⟨leases', -, hrest⟩⟩
  · exact updateReturning_cause hatt
  · exact updateOne_cause hlease
  rcases hrest with ⟨-, ⟨-, hjobs⟩ | ⟨-, hjobs | ⟨⟨generation, jobs'⟩, hreq, hout⟩⟩⟩ |
    ⟨hdead, hjobs | ⟨-, -, hdlq⟩⟩
  · exact updateOne_cause hjobs
  · exact requeueJob_cause hjobs
  · -- The notification carries the raised generation, which is at least one.
    obtain ⟨-, rfl, -⟩ := requeueJob_eq_ok hA hreq
    exact insertWorkAvailableTx_cause (Nat.le_add_left 1 _) hout
  · exact updateOne_cause hjobs
  · simp only [insertDLQEntryTx, bind_eq_error, fetch, orFail_eq_error] at hdlq
    rcases hdlq with ⟨hnone, -⟩ | ⟨reason, -, hins⟩
    · exact absurd hnone (hreason (by simpa using hdead))
    · exact insertRow_cause hins

theorem finalizeCancellation_cause {state : FenceState} {o : Option UUID} {ls : LeaseStatus}
    (h : finalizeCancellation db state fence o ls = .error f) : f.cause ≠ .check := by
  simp only [finalizeCancellation, bind_eq_error, pure_ne_error, and_false, exists_false,
    or_false] at h
  rcases h with hatt | ⟨-, -, hlease | ⟨-, -, hjobs⟩⟩
  · exact updateOne_cause hatt
  · exact updateOne_cause hlease
  · exact updateOne_cause hjobs

/-- The reconciler's two classes have a decision. -/
theorem decide_reconciled (hclass : class_ = .timedOut ∨ class_ = .abandoned) :
    checked (p.decide class_ n used maxAttempts backoff) StoreError.failed = .error f ↔ False := by
  obtain ⟨d, hd⟩ := decide_ok p n used maxAttempts backoff (.inr (.inr hclass))
  rw [hd, iff_false]
  intro h
  cases h

/-- A decision says why when it does not retry. -/
theorem decide_reason
    (hd : checked (p.decide class_ n used maxAttempts backoff) StoreError.failed = .ok d) :
    d.retry = false → d.deadLetterReason ≠ none := by
  intro hr
  rw [(decide_sound (checked_eq_ok.mp hd)).dead_reason hr]
  exact Option.some_ne_none _

theorem finalizeTimeout_cause (hA : Authority db scope fence s j a l)
    (h : finalizeTimeout env db (FenceState.ofRows scope s j a l now) fence stats = .error f) :
    f.cause ≠ .check := by
  simp only [finalizeTimeout, bind_eq_error, decide_reconciled (.inl rfl), ite_eq_error,
    pure_ne_error, and_false, exists_false, or_false, false_or] at h
  obtain ⟨d, hd, hfin⟩ := h
  exact finalizeAttempt_cause hA (decide_reason hd) hfin

/-- On a stored binding `reconcileExpiredLease` is not stopped by its own checks. -/
theorem reconcileExpiredLease_cause (hA : Authority db l.scope l.fence s j a l)
    (h : reconcileExpiredLease env l.id stats db = .error f) : f.cause ≠ .check := by
  have hroute : (db.leases.rows.find? fun m => m.id == l.id) = some l := by
    refine find?_eq_some_of_unique hA.lease_mem (by simp) fun x hx hp => ?_
    exact db.lease_eq_of_id hx hA.lease_mem (beq_iff_eq.mp hp)
  unfold reconcileExpiredLease at h
  rw [hroute] at h
  dsimp only at h
  rw [underLocks_of_authority hA] at h
  simp only [expiryUnderLocks, ite_eq_error, bind_eq_error, decide_reconciled (.inr rfl),
    pure_ne_error, and_false, exists_false, or_false, false_or] at h
  obtain ⟨-, -, ⟨-, hfin⟩ | ⟨-, -, ⟨-, hfin⟩ | ⟨-, d, hd, hfin⟩⟩⟩ := h
  · exact finalizeCancellation_cause hfin
  · exact finalizeTimeout_cause hA hfin
  · exact finalizeAttempt_cause hA (decide_reason hd) hfin

/-- On a stored binding `reconcileDueTimeout` is not stopped by its own checks. -/
theorem reconcileDueTimeout_cause (hA : Authority db l.scope l.fence s j a l)
    (h : reconcileDueTimeout env a.id stats db = .error f) : f.cause ≠ .check := by
  unfold reconcileDueTimeout at h
  rw [hA.routeTimeout_eq] at h
  dsimp only at h
  rw [underLocks_of_authority hA] at h
  simp only [timeoutUnderLocks, ite_eq_error, bind_eq_error, pure_ne_error, and_false, exists_false,
    or_false, false_or] at h
  exact finalizeTimeout_cause hA h.2

/-- A queue that is there is locked. -/
theorem lockQueue_ne_error {name context : String} (h : ∃ q ∈ db.queues.rows, q.name = name) :
    lockQueue db name context ≠ .error f := by
  intro hlock
  obtain ⟨q, hq, hname⟩ := h
  simp only [lockQueue, fetch, orFail_eq_error] at hlock
  exact absurd (beq_iff_eq.mpr hname) (List.find?_eq_none.mp hlock.1 q hq)

/-- On a stored job whose queue is there `promoteDueJob` is not stopped by its own
checks. -/
theorem promoteDueJob_cause (hj : j ∈ db.jobs.rows)
    (hqueue : ∃ q ∈ db.queues.rows, q.name = j.queue)
    (h : promoteDueJob env j.id db = .error f) : f.cause ≠ .check := by
  obtain ⟨k, hk, hid, hread⟩ := routed_eq_error h
  obtain rfl : k = j := db.job_eq_of_id hk hj hid
  simp only [promoteRead, bind_eq_error, ite_eq_error, pure_ne_error, and_false, exists_false,
    or_false] at hread
  rcases hread with hlock | ⟨-, -, -, hupd | ⟨⟨new, jobs'⟩, hupd, hout⟩⟩
  · exact absurd hlock (lockQueue_ne_error hqueue)
  · exact updateReturning_cause hupd
  · obtain ⟨-, rfl, -⟩ := updateReturning_eq_ok (job_pk hj) hupd
    exact insertWorkAvailableTx_cause (Nat.le_add_left 1 _) hout

/-- On a stored job whose queue is there `renotifyStrandedJob` is not stopped by its
own checks. -/
theorem renotifyStrandedJob_cause {after : Int} (hj : j ∈ db.jobs.rows)
    (hqueue : ∃ q ∈ db.queues.rows, q.name = j.queue)
    (h : renotifyStrandedJob env j.id after db = .error f) : f.cause ≠ .check := by
  obtain ⟨k, hk, hid, hread⟩ := routed_eq_error h
  obtain rfl : k = j := db.job_eq_of_id hk hj hid
  simp only [renotifyRead, bind_eq_error, ite_eq_error, pure_ne_error, and_false, exists_false,
    or_false] at hread
  rcases hread with hlock | ⟨-, -, hstr, hupd | ⟨jobs', -, hout⟩⟩
  · exact absurd hlock (lockQueue_ne_error hqueue)
  · exact updateOne_cause hupd
  · simp only [isStranded, Bool.and_eq_true, decide_eq_true_eq] at hstr
    exact insertWorkAvailableTx_cause hstr.1.1.2 hout

/-- On a cancelable job whose queue is there `requestCancel` is not stopped by its own
checks. -/
theorem requestCancel_cause (hj : j ∈ db.jobs.rows)
    (hqueue : ∃ q ∈ db.queues.rows, q.name = j.queue) {target : JobStatus}
    (htarget : cancelTarget j.status = some target)
    (h : requestCancel env j.scope j.id db = .error f) : f.cause ≠ .check := by
  have hroute : fetch (jobInScope db j.scope j.id) .jobNotFound = .ok j :=
    fetch_eq_ok.mpr (jobInScope_of_mem hj)
  unfold requestCancel at h
  rw [hroute, ok_bind] at h
  simp only [bind_eq_error, ite_eq_error, pure_ne_error, and_false, exists_false, or_false,
    false_or] at h
  rcases h with hlock | ⟨-, -, -, hno | ⟨goal, -, hupd⟩⟩
  · exact absurd hlock (lockQueue_ne_error hqueue)
  · simp only [fetch, orFail_eq_error, htarget] at hno
    cases hno.1
  · exact updateOne_cause hupd

/-- On a dead job under a key that is not used `replay` is not stopped by its own checks. -/
theorem replay_cause {key : String} (hready : ReplayReady j.scope j.id db j)
    (hunused : ∀ r ∈ db.dlqReplays.rows,
      ¬ (r.scope = j.scope ∧ r.originalJobID = j.id ∧ r.idempotencyKey = key))
    (h : replay env j.scope j.id key db = .error f) : f.cause ≠ .check := by
  have hroute : fetch (jobInScope db j.scope j.id) .jobNotFound = .ok j :=
    fetch_eq_ok.mpr (jobInScope_of_mem hready.mem)
  have hnone : (db.dlqReplays.rows.any fun r =>
      r.scope == j.scope && r.originalJobID == j.id && r.idempotencyKey == key) = false := by
    rw [List.any_eq_false]
    intro r hr
    simpa [and_assoc] using hunused r hr
  unfold replay at h
  rw [hroute, ok_bind, hnone] at h
  simp only [bind_eq_error, demand, ensure_eq_error, pure_ne_error, and_false, exists_false,
    or_false, Bool.false_eq_true, if_false] at h
  rcases h with hlock | ⟨-, -, ⟨hdead, -⟩ | ⟨-, -, ⟨hentry, -⟩ | ⟨-, -, hins | ⟨-, -, hins | ⟨-, -, hout⟩⟩⟩⟩⟩
  · exact absurd hlock (lockQueue_ne_error hready.queue)
  · simp [hready.dead] at hdead
  · obtain ⟨d, hd, hjob⟩ := hready.entry
    rw [List.any_eq_false] at hentry
    exact absurd (beq_iff_eq.mpr hjob) (hentry d hd)
  · exact insertRow_cause hins
  · exact insertRow_cause hins
  · exact insertWorkAvailableTx_cause (le_refl 1) hout

end Checks

/-! ## The rows are there -/

section Enabled

variable {w : World} {env : Env} {j : Job} {a : JobAttempt} {l : Lease} {stats : ReconcileStats}

/-- The rows that the fence of an open run names. -/
theorem Sound.authority (h : Sound w) (hj : j ∈ w.db.jobs.rows) {past : List JobAttempt}
    {pastLeases : List Lease}
    (run : Executing w.clock j (w.db.caseFile j.id) past pastLeases a l) :
    ∃ s, Authority w.db l.scope l.fence s j a l := by
  have hamem : a ∈ (w.db.caseFile j.id).attempts := by
    rw [run.attempts]
    exact List.mem_concat_self
  have hlmem : l ∈ (w.db.caseFile j.id).leases := by
    rw [run.leases]
    exact List.mem_concat_self
  exact h.authority_of_bound hj (mem_caseFile_attempts.mp hamem).1
    (mem_caseFile_leases.mp hlmem).1 run.bound

/-- A call that its own checks do not stop commits. -/
theorem Call.commits {call : Call} (h : Sound w) (hclock : w.clock ≤ env.clock.s₀)
    (ha : Admissible w.db ⟨env, call⟩) (hcall : call.submits = false)
    (hstorable : call.storable = true)
    (hcheck : ∀ f, call.run env w.db = .error f → f.cause ≠ .check) :
    ∃ ans db', call.run env w.db = .ok (ans, db') := by
  cases hrun : call.run env w.db with
  | ok r => exact ⟨r.1, r.2, rfl⟩
  | error f =>
    obtain ⟨t, v, hcause⟩ := (Call.refusal (hcheck f hrun) hrun).cause
    exact absurd hcause (Call.not_refused h hclock ha hcall hstorable hrun t v)

/-! ## Expired leases -/

/-- Where recovery takes a job out of a worker's hands. -/
def Recovered (s : JobStatus) : Prop :=
  s = .queued ∨ s = .retryWait ∨ s = .deadLettered ∨ s = .canceled

theorem finalizedJob_recovered (d : Decision) (now : Int) (j : Job) :
    Recovered (finalizedJob d now j).status := by
  unfold finalizedJob Recovered
  split_ifs
  · exact .inr (.inl rfl)
  · exact .inl rfl
  · exact .inr (.inr (.inl rfl))

/-- Each verdict on a lapsed lease closes it as expired and gives the job back. -/
theorem Verdict.recovers {scope : String} {writes : Writes} (h : Verdict env scope j a l writes) :
    ∃ j', writes.job = .replace j j' ∧ j'.id = j.id ∧ Recovered j'.status ∧
      writes.lease = .replace l (closedLease .expired env.clock.s₀ l) := by
  cases h with
  | canceled job => exact ⟨_, rfl, rfl, .inr (.inr (.inr rfl)), rfl⟩
  | timedOut d job outlived decision | abandoned d job lapsed decision =>
    exact ⟨_, rfl, finalizedJob_id d _ j, finalizedJob_recovered d _ j, rfl⟩

/-- What `reconcileExpiredLease` did to the job and to the lease of a lapsed run. -/
structure LeaseRecovered (stats stats' : ReconcileStats) (db' : DB) (j : Job) (l : Lease) :
    Prop where
  not_skipped : stats'.skipped = stats.skipped
  lease : ∃ l' ∈ db'.leases.rows, l'.id = l.id ∧ l'.status = .expired
  job : ∃ j' ∈ db'.jobs.rows, j'.id = j.id ∧ Recovered j'.status

theorem Sound.expiry_recovers (h : Sound w) (hj : j ∈ w.db.jobs.rows)
    (hs : isExecutingJobStatus j.status = true ∨ j.status = .cancelRequested)
    {past : List JobAttempt} {pastLeases : List Lease}
    (run : Executing w.clock j (w.db.caseFile j.id) past pastLeases a l)
    (hclock : w.clock ≤ env.clock.s₀) (hexp : l.expiresAt ≤ env.clock.s₀)
    (ha : Admissible w.db ⟨env, .reconcileExpiredLease l.id stats⟩) :
    ∃ stats' db', reconcileExpiredLease env l.id stats w.db = .ok (stats', db') ∧
      LeaseRecovered stats stats' db' j l := by
  obtain ⟨s, hA⟩ := h.authority hj run
  obtain ⟨ans, db', hrun⟩ := Call.commits h hclock ha rfl rfl fun f hf =>
    reconcileExpiredLease_cause hA (answering_eq_error.mp hf)
  obtain ⟨stats', hok, -⟩ := answering_eq_ok.mp hrun
  refine ⟨stats', db', hok, ?_⟩
  rcases reconcileExpiredLease_eq_ok hok with
    ⟨-, -, hskip⟩ | ⟨hskipped, s', j', a', l', writes, hB, hlid, hlapsed, hverdict, happ⟩
  · have hlapsed : Lapsed env.clock.s₀ a l := ⟨run.open_.lease, hexp, run.open_.attempt⟩
    exact absurd ⟨hlapsed, hs.symm⟩ (hskip s j a l rfl hA)
  · -- The lease was found by its id, so its rows are the rows of the run.
    obtain ⟨-, rfl, rfl, rfl⟩ := hB.eq_of_lease hA hlid
    obtain ⟨new, hjob, hnewid, hrecovered, hlease⟩ := hverdict.recovers
    refine ⟨hskipped, ⟨closedLease .expired env.clock.s₀ l', ?_, rfl, rfl⟩,
      ⟨new, ?_, hnewid, hrecovered⟩⟩
    · rw [happ.leases, hlease]
      exact mem_replaceRow.mpr (.inr ⟨rfl, hA.lease_mem⟩)
    · rw [happ.jobs, hjob]
      exact mem_replaceRow.mpr (.inr ⟨rfl, hj⟩)

/-! ## Waiting jobs -/

theorem Sound.promotes (h : Sound w) (hj : j ∈ w.db.jobs.rows)
    (hs : j.status = .pending ∨ j.status = .retryWait) (hclock : w.clock ≤ env.clock.s₀)
    (hdue : j.availableAt ≤ env.clock.s₀) (ha : Admissible w.db ⟨env, .promoteDueJob j.id⟩) :
    ∃ db', promoteDueJob env j.id w.db = .ok (true, db') ∧
      ∃ j' ∈ db'.jobs.rows, j'.id = j.id ∧ j'.status = .queued := by
  have hprom : isPromotable env.clock.s₀ j = true := by
    rcases hs with hs | hs <;> simp [isPromotable, hs, hdue]
  obtain ⟨ans, db', hrun⟩ := Call.commits h hclock ha rfl rfl fun f hf =>
    promoteDueJob_cause hj (h.queues j hj) (answering_eq_error.mp hf)
  obtain ⟨r, hok, -⟩ := answering_eq_ok.mp hrun
  rcases promoteDueJob_eq_ok hok with ⟨-, -, hnot⟩ | ⟨rfl, k, hk, hkid, -, happ⟩
  · rw [hnot j hj rfl] at hprom
    cases hprom
  · obtain rfl : k = j := w.db.job_eq_of_id hk hj hkid
    refine ⟨db', hok, promotedJob env.clock.s₀ k, ?_, rfl, rfl⟩
    rw [happ.jobs]
    exact mem_replaceRow.mpr (.inr ⟨rfl, hj⟩)

theorem Sound.cancels_queued (h : Sound w) (hj : j ∈ w.db.jobs.rows) (hs : j.status = .queued)
    (hclock : w.clock ≤ env.clock.s₀) (ha : Admissible w.db ⟨env, .requestCancel j.scope j.id⟩) :
    ∃ r db', requestCancel env j.scope j.id w.db = .ok (r, db') ∧
      ∃ j' ∈ db'.jobs.rows, j'.id = j.id ∧ j'.status = .canceled := by
  have htarget : cancelTarget j.status = some .canceled := by rw [hs]; rfl
  obtain ⟨ans, db', hrun⟩ := Call.commits h hclock ha rfl rfl fun f hf =>
    requestCancel_cause hj (h.queues j hj) htarget (answering_eq_error.mp hf)
  obtain ⟨r, hok, -⟩ := answering_eq_ok.mp hrun
  refine ⟨r, db', hok, ?_⟩
  obtain ⟨k, hk, hkid, -, ⟨hover, -, -⟩ | ⟨target, hto, -, happ⟩⟩ := requestCancel_eq_ok hok
  all_goals obtain rfl : k = j := w.db.job_eq_of_id hk hj hkid
  · rw [hs] at hover
    rcases hover with hover | hover <;> cases hover
  · rw [htarget] at hto
    cases hto
    refine ⟨cancelledJob .canceled env.clock.s₀ k, ?_, rfl, rfl⟩
    rw [happ.jobs]
    exact mem_replaceRow.mpr (.inr ⟨rfl, hj⟩)

end Enabled

/-! ## Every job that is not over -/

/-- A call made in `env` commits and takes the job out of its status. -/
def Movable (env : Env) (db : DB) (j : Job) : Prop :=
  ∃ (call : Call) (ans : Answer) (db' : DB), call.run env db = .ok (ans, db') ∧
    ∃ j' ∈ db'.jobs.rows, j'.id = j.id ∧ j'.status ≠ j.status

/-- What recovery can do about the jobs of a state. Ids are drawn fresh, and the clock
is read at or after every sample before. -/
structure RecoveryEnabled (w : World) : Prop where
  /-- A job in a worker's hands has an active lease. -/
  leased : ∀ j ∈ w.db.jobs.rows,
    j.status = .leased ∨ j.status = .running ∨ j.status = .cancelRequested →
    ∃ l ∈ w.db.leases.rows, l.jobID = j.id ∧ l.status = .active
  /-- It is taken back from whatever active lease it has, once that has run out. -/
  expired : ∀ j ∈ w.db.jobs.rows,
    j.status = .leased ∨ j.status = .running ∨ j.status = .cancelRequested →
    ∀ l ∈ w.db.leases.rows, l.jobID = j.id → l.status = .active → ∀ env stats,
    w.clock ≤ env.clock.s₀ → l.expiresAt ≤ env.clock.s₀ →
    Admissible w.db ⟨env, .reconcileExpiredLease l.id stats⟩ →
    ∃ stats' db', reconcileExpiredLease env l.id stats w.db = .ok (stats', db') ∧
      LeaseRecovered stats stats' db' j l
  /-- A job that waits for an instant is promoted once it has come. -/
  due : ∀ j ∈ w.db.jobs.rows, j.status = .pending ∨ j.status = .retryWait → ∀ env,
    w.clock ≤ env.clock.s₀ → j.availableAt ≤ env.clock.s₀ →
    Admissible w.db ⟨env, .promoteDueJob j.id⟩ →
    ∃ db', promoteDueJob env j.id w.db = .ok (true, db') ∧
      ∃ j' ∈ db'.jobs.rows, j'.id = j.id ∧ j'.status = .queued
  /-- From some instant on, every job that is not over can be moved. -/
  movable : ∀ j ∈ w.db.jobs.rows, j.status.terminal = false → ∃ since : Int, ∀ env,
    w.clock ≤ env.clock.s₀ → since ≤ env.clock.s₀ → Fresh env w.db → 1000 ≤ env.leaseDuration →
    Movable env w.db j

section Jobs

variable {w : World} {j : Job}

theorem working_iff : isExecutingJobStatus j.status = true ∨ j.status = .cancelRequested ↔
    j.status = .leased ∨ j.status = .running ∨ j.status = .cancelRequested := by
  unfold isExecutingJobStatus
  rw [Bool.or_eq_true, beq_iff_eq, beq_iff_eq, or_assoc]

/-- The one active lease of a job is the lease of its open run. -/
theorem Executing.active_lease {now : Int} {past : List JobAttempt} {pastLeases : List Lease}
    {a : JobAttempt} {l m : Lease}
    (run : Executing now j (w.db.caseFile j.id) past pastLeases a l) (hm : m ∈ w.db.leases.rows)
    (hjob : m.jobID = j.id) (hactive : m.status = .active) : m = l := by
  have hmem : m ∈ (w.db.caseFile j.id).leases := mem_caseFile_leases.mpr ⟨hm, hjob⟩
  rw [run.leases, List.mem_append, List.mem_singleton] at hmem
  rcases hmem with hpast | hlast
  · exact absurd hactive (run.history.lease_closed hpast)
  · exact hlast

theorem Recovered.ne_of_working {s : JobStatus} (h : Recovered s)
    (hs : j.status = .leased ∨ j.status = .running ∨ j.status = .cancelRequested) :
    s ≠ j.status := by
  rintro rfl
  unfold Recovered at h
  rcases hs with hs | hs | hs <;> simp [hs] at h

theorem Sound.movable (h : Sound w) (hj : j ∈ w.db.jobs.rows) (hs : j.status.terminal = false) :
    ∃ since : Int, ∀ env, w.clock ≤ env.clock.s₀ → since ≤ env.clock.s₀ → Fresh env w.db →
      1000 ≤ env.leaseDuration → Movable env w.db j := by
  by_cases hworking : j.status = .leased ∨ j.status = .running ∨ j.status = .cancelRequested
  · obtain ⟨past, pastLeases, a, l, run, -⟩ := h.run_of_working hj (working_iff.mpr hworking)
    refine ⟨l.expiresAt, fun env hclock hexp hfresh hdur => ?_⟩
    have hadm : Admissible w.db ⟨env, .reconcileExpiredLease l.id ⟨0, 0, 0, 0, 0, 0, 0, 0⟩⟩ :=
      ⟨hfresh, hdur, rfl⟩
    obtain ⟨stats', db', hok, hrec⟩ :=
      h.expiry_recovers hj (working_iff.mpr hworking) run hclock hexp hadm
    obtain ⟨j', hj', hid, hrecovered⟩ := hrec.job
    exact ⟨.reconcileExpiredLease l.id _, _, db', answering_eq_ok.mpr ⟨stats', hok, rfl⟩,
      j', hj', hid, hrecovered.ne_of_working hworking⟩
  by_cases hwaiting : j.status = .pending ∨ j.status = .retryWait
  · refine ⟨j.availableAt, fun env hclock hdue hfresh hdur => ?_⟩
    obtain ⟨db', hok, j', hj', hid, hqueued⟩ := h.promotes hj hwaiting hclock hdue ⟨hfresh, hdur, rfl⟩
    refine ⟨.promoteDueJob j.id, _, db', answering_eq_ok.mpr ⟨true, hok, rfl⟩, j', hj', hid, ?_⟩
    rw [hqueued]
    rcases hwaiting with hs | hs <;> rw [hs] <;> decide
  · -- What is left is a queued job: it waits for a worker, and can still be canceled.
    have hqueued : j.status = .queued := by
      cases he : j.status <;> simp [he, JobStatus.terminal] at hs hworking hwaiting ⊢
    refine ⟨w.clock, fun env hclock _ hfresh hdur => ?_⟩
    obtain ⟨r, db', hok, j', hj', hid, hcanceled⟩ :=
      h.cancels_queued hj hqueued hclock ⟨hfresh, hdur, rfl⟩
    refine ⟨.requestCancel j.scope j.id, _, db', answering_eq_ok.mpr ⟨r, hok, rfl⟩, j', hj', hid, ?_⟩
    rw [hcanceled, hqueued]
    decide

/-- In every state the system reaches, every job that is not over can be moved on. -/
theorem recovery_enabled (h : Reachable w) : RecoveryEnabled w where
  leased j hj hs := by
    obtain ⟨past, pastLeases, a, l, run, -⟩ := h.sound.run_of_working hj (working_iff.mpr hs)
    obtain ⟨s, hA⟩ := h.sound.authority hj run
    exact ⟨l, hA.lease_mem, run.bound.lease_job, run.open_.lease⟩
  expired j hj hs l hl hjob hactive env stats hclock hexp ha := by
    obtain ⟨past, pastLeases, a, l', run, -⟩ := h.sound.run_of_working hj (working_iff.mpr hs)
    obtain rfl := run.active_lease hl hjob hactive
    exact h.sound.expiry_recovers hj (working_iff.mpr hs) run hclock hexp ha
  due j hj hs env hclock hdue ha := h.sound.promotes hj hs hclock hdue ha
  movable j hj hs := h.sound.movable hj hs

end Jobs

/-- The worker of the sample job is never heard of again, and forty seconds later the
reconciler takes the job back. -/
theorem recovery_enabled_sample :
    ∃ j ∈ (quiet.exec sampleStart).2.db.jobs.rows, ∃ l ∈ (quiet.exec sampleStart).2.db.leases.rows,
      j.status = .running ∧ ∃ stats' db',
        reconcileExpiredLease (envAt 40000000 50 51) l.id ⟨0, 0, 0, 0, 0, 0, 0, 0⟩
          (quiet.exec sampleStart).2.db = .ok (stats', db') ∧
        LeaseRecovered ⟨0, 0, 0, 0, 0, 0, 0, 0⟩ stats' db' j l := by
  obtain ⟨⟨j, hj, l, hl, hs, hjob, hactive, hexp⟩, hfresh, hclock⟩ :
      (∃ j ∈ (quiet.exec sampleStart).2.db.jobs.rows,
        ∃ l ∈ (quiet.exec sampleStart).2.db.leases.rows,
          j.status = .running ∧ l.jobID = j.id ∧ l.status = .active ∧ l.expiresAt ≤ 40000000) ∧
      Fresh (envAt 40000000 50 51) (quiet.exec sampleStart).2.db ∧
      (quiet.exec sampleStart).2.clock ≤ 40000000 := by decide +kernel
  have hdur : 1000 ≤ (envAt 40000000 50 51).leaseDuration := by decide
  have henabled := recovery_enabled (quiet_reachable (by decide : Clocked 0 sampleStart))
  exact ⟨j, hj, l, hl, hs, henabled.expired j hj (.inr (.inl hs)) l hl hjob hactive _ _
    hclock hexp ⟨hfresh, hdur, rfl⟩⟩

end TaskForge
