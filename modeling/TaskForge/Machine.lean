/-
The machine behind the transactions: what may lawfully happen to one job.

`Lawful env db id w` says that the writes `w` are a move of the job's state
machine: a birth, a cancellation, a promotion, a claim, a start, a renewal, a
success, or one of the two ways an attempt is closed without success. Each move
carries the guard it is made under, in terms of the rows of the job's case file,
and nothing about how the transaction found those rows.

`Commit.effect` is the refinement: whatever a committed transaction did, it made
one lawful move of one job, or it touched sessions only, or it changed nothing.
Every result above this file that does not ask which call it was is proved about
moves, once each.
-/
import TaskForge.Commit

open Relational Fallible

namespace TaskForge

/-! ## Guards -/

/-- The rows of one run in the case file of `id`: the job, an attempt of it and
the attempt's lease. -/
structure Holds (db : DB) (id : UUID) (j : Job) (a : JobAttempt) (l : Lease) : Prop where
  job : (db.caseFile id).job = some j
  attempt : a ∈ (db.caseFile id).attempts
  lease : l ∈ (db.caseFile id).leases
  bound : l.attemptID = a.id

theorem Holds.rows {db : DB} {id : UUID} {j : Job} {a : JobAttempt} {l : Lease}
    (h : Holds db id j a l) : (j ∈ db.jobs.rows ∧ j.id = id) ∧
      (a ∈ db.attempts.rows ∧ a.jobID = id) ∧ l ∈ db.leases.rows ∧ l.jobID = id :=
  ⟨caseFile_job_eq_some.mp h.job, mem_caseFile_attempts.mp h.attempt,
    mem_caseFile_leases.mp h.lease⟩

/-- The ways an attempt ends without success, short of cancellation: reported,
timed out under a usable lease, timed out before its lease lapsed, abandoned. -/
inductive Ends (now : Int) (j : Job) (a : JobAttempt) (l : Lease) : AttemptOutcome → Prop where
  | failed (s : WorkerSession) (report : FailureReport)
      (valid : validateFailureReport report = []) (live : Live now s l) (inTime : InTime now a)
      (job : j.status = .running) (attempt : a.status = .running) :
      Ends now j a l (failedOutcome report)
  | timedOut (due : TimeoutDue now j a l) : Ends now j a l (timeoutOutcome .released)
  | outlived (lapsed : Lapsed now a l) (job : isExecutingJobStatus j.status = true)
      (outlived : OutlivedDeadline a l) : Ends now j a l (timeoutOutcome .expired)
  | abandoned (lapsed : Lapsed now a l) (job : isExecutingJobStatus j.status = true)
      (early : ¬ OutlivedDeadline a l) : Ends now j a l abandonedOutcome

/-- The ways a requested cancellation is completed: acknowledged by the worker, or
by the reconciler once the lease has lapsed. -/
inductive Cancels (now : Int) (j : Job) (a : JobAttempt) (l : Lease) :
    Option UUID → LeaseStatus → Prop where
  | acknowledged (s : WorkerSession) (o : UUID) (live : Live now s l)
      (job : j.status = .cancelRequested) (attempt : isExecutingAttemptStatus a.status = true) :
      Cancels now j a l (some o) .released
  | lapsed (lapsed : Lapsed now a l) (job : j.status = .cancelRequested) :
      Cancels now j a l none .expired

/-! ## Moves -/

/-- `max(attempt_number) + 1` over a case file. -/
def CaseFile.nextNumber (cf : CaseFile) : ℕ :=
  (cf.attempts.map JobAttempt.attemptNumber).foldr max 0 + 1

/-- The lawful writes to the case file of `id`. -/
inductive Lawful (env : Env) (db : DB) (id : UUID) : Writes → Prop where
  | submit (scope key : String) (req : NormalizedRequest) (trace : TraceContext)
      (unborn : (db.caseFile id).job = none) (new : env.id₁ = id)
      (queue : ∃ q ∈ db.queues.rows, q.name = req.queue) :
      Lawful env db id (submitWrites env scope key req trace)
  | replay (scope key : String) (original : Job) (unborn : (db.caseFile id).job = none)
      (new : env.id₁ = id) (ready : ReplayReady scope original.id db original) :
      Lawful env db id (replayWrites env scope key original)
  | cancel (j : Job) (target : JobStatus) (job : (db.caseFile id).job = some j)
      (cancelable : cancelTarget j.status = some target) :
      Lawful env db id (cancelWrites target env.clock.s₀ j)
  | promote (j : Job) (job : (db.caseFile id).job = some j)
      (promotable : isPromotable env.clock.s₀ j = true) :
      Lawful env db id (promoteWrites env j)
  | renotify (j : Job) (after : Int) (job : (db.caseFile id).job = some j)
      (stranded : isStranded db after env.clock.s₀ j = true) :
      Lawful env db id (renotifyWrites env j)
  | claim (scope : String) (req : ClaimRequest) (s : WorkerSession) (j : Job)
      (job : (db.caseFile id).job = some j) (ready : ClaimReady env scope req db s j) :
      Lawful env db id (claimWrites env scope req (db.caseFile id).nextNumber j)
  | start (s : WorkerSession) (j : Job) (a : JobAttempt) (l : Lease) (holds : Holds db id j a l)
      (live : Live env.clock.s₀ s l) (job : j.status = .leased) (attempt : a.status = .leased) :
      Lawful env db id (startWrites env.clock.s₀ j a)
  | renew (s : WorkerSession) (j : Job) (a : JobAttempt) (l : Lease) (req : RenewalRequest)
      (holds : Holds db id j a l) (ready : RenewReady env req db s j a l) :
      Lawful env db id (renewWrites env env.clock.s₀ req.renewalRequestID l)
  | succeed (scope : String) (result : Option ResultRef) (s : WorkerSession) (j : Job)
      (a : JobAttempt) (l : Lease) (holds : Holds db id j a l) (scope_eq : j.scope = scope)
      (ready : SucceedReady env.clock.s₀ s j a l) :
      Lawful env db id (succeedWrites env scope env.clock.s₀ result j a l)
  | finalize (scope : String) (o : AttemptOutcome) (d : Decision) (j : Job) (a : JobAttempt)
      (l : Lease) (holds : Holds db id j a l) (scope_eq : j.scope = scope)
      (ends : Ends env.clock.s₀ j a l o)
      (decision : env.retryPolicy.decide o.class_ a.attemptNumber a.attemptNumber j.maxAttempts
        env.backoff = .ok d)
      (identity : ∀ r, o.outcomeRequestID = some r →
        ∀ b ∈ db.attempts.rows, b.outcomeRequestID ≠ some r) :
      Lawful env db id (finalizeWrites env scope o d env.clock.s₀ j a l)
  | cancellation (o : Option UUID) (ls : LeaseStatus) (j : Job) (a : JobAttempt) (l : Lease)
      (holds : Holds db id j a l) (cancels : Cancels env.clock.s₀ j a l o ls)
      (identity : ∀ r, o = some r → ∀ b ∈ db.attempts.rows, b.outcomeRequestID ≠ some r) :
      Lawful env db id (cancellationWrites o ls env.clock.s₀ j a l)

section Rows

variable {env : Env} {db : DB} {id : UUID} {w : Writes} {j : Job} {a : JobAttempt} {l : Lease}
variable {scope : String} {o : AttemptOutcome} {d : Decision} {now : Int}

/-! A finalized attempt moves its job's status, and no column that names it. -/

@[simp] theorem finalizedJob_id (d : Decision) (now : Int) (j : Job) :
    (finalizedJob d now j).id = j.id := by
  unfold finalizedJob; split_ifs <;> rfl

@[simp] theorem finalizedJob_scope (d : Decision) (now : Int) (j : Job) :
    (finalizedJob d now j).scope = j.scope := by
  unfold finalizedJob; split_ifs <;> rfl

@[simp] theorem finalizedJob_queue (d : Decision) (now : Int) (j : Job) :
    (finalizedJob d now j).queue = j.queue := by
  unfold finalizedJob; split_ifs <;> rfl

theorem finalize_event_mem {e : OutboxEvent}
    (he : e ∈ (finalizeWrites env scope o d now j a l).events) :
    e = workAvailableEvent env.id₁ env.clock.start j.id l.queue (j.notificationGeneration + 1)
      none := by
  simp only [finalizeWrites] at he
  split_ifs at he
  · exact List.mem_singleton.mp he
  · cases he

theorem finalize_entry_mem {e : DLQEntry} (he : e ∈ (finalizeWrites env scope o d now j a l).dlq) :
    ∃ reason, d.deadLetterReason = some reason ∧
      e = ⟨env.id₁, scope, l.queue, j.id, some a.id, reason, now⟩ := by
  simp only [finalizeWrites] at he
  split_ifs at he
  · cases he
  · obtain ⟨reason, hreason, rfl⟩ := Option.map_eq_some_iff.mp (Option.mem_toList.mp he)
    exact ⟨reason, hreason, rfl⟩

/-- The rows a binding names are a run of the job's case file. -/
theorem Authority.holds {fence : Fence} {s : WorkerSession} (h : Authority db scope fence s j a l) :
    Holds db j.id j a l where
  job := caseFile_job_of_mem h.job_mem
  attempt := mem_caseFile_attempts.mpr ⟨h.attempt_mem, h.attempt_job.trans h.job_id.symm⟩
  lease := mem_caseFile_leases.mpr ⟨h.lease_mem, h.lease_job.trans h.job_id.symm⟩
  bound := h.lease_attempt.trans h.attempt_id.symm

/-- **Every move writes rows of its own job only.** -/
theorem Lawful.about (h : Lawful env db id w) : w.About db id := by
  cases h with
  | submit scope key req trace unborn new queue =>
    constructor <;> simp only [submitWrites, RowWrite.Within, List.not_mem_nil, false_implies,
      implies_true]
    · exact new
    · intro e he
      split_ifs at he
      · cases he
      · rw [List.mem_singleton.mp he, ← new]
        rfl
  | replay scope key original unborn new ready =>
    constructor <;> simp [replayWrites, RowWrite.Within, replacementJob, workAvailableEvent, new]
  | cancel j target job cancelable =>
    obtain ⟨hj, hid⟩ := caseFile_job_eq_some.mp job
    constructor <;> simp [cancelWrites, RowWrite.Within, cancelledJob, hj, hid]
  | promote j job promotable =>
    obtain ⟨hj, hid⟩ := caseFile_job_eq_some.mp job
    constructor <;> simp [promoteWrites, RowWrite.Within, promotedJob, workAvailableEvent, hj, hid]
  | renotify j after job stranded =>
    obtain ⟨hj, hid⟩ := caseFile_job_eq_some.mp job
    constructor <;> simp [renotifyWrites, RowWrite.Within, renotifiedJob, workAvailableEvent, hj,
      hid]
  | claim scope req s j job ready =>
    obtain ⟨hj, hid⟩ := caseFile_job_eq_some.mp job
    constructor <;> simp [claimWrites, RowWrite.Within, leasedJob, claimedAttempt, claimedLease, hj,
      hid]
  | start s j a l holds live job attempt =>
    obtain ⟨⟨hj, hid⟩, ⟨ha, hajob⟩, -⟩ := holds.rows
    constructor <;> simp [startWrites, RowWrite.Within, runningJob, startedAttempt, hj, hid, ha,
      hajob]
  | renew s j a l req holds ready =>
    obtain ⟨hl, hljob⟩ := mem_caseFile_leases.mp holds.lease
    constructor <;> simp [renewWrites, RowWrite.Within, renewedLease, hl, hljob]
  | succeed scope result s j a l holds scope_eq ready =>
    obtain ⟨⟨hj, hid⟩, ⟨ha, hajob⟩, hl, hljob⟩ := holds.rows
    constructor <;> simp [succeedWrites, RowWrite.Within, succeededJob, succeededAttempt,
      closedLease, resultRow, hj, hid, ha, hajob, hl, hljob]
  | finalize scope o d j a l holds scope_eq ends decision identity =>
    obtain ⟨⟨hj, hid⟩, ⟨ha, hajob⟩, hl, hljob⟩ := holds.rows
    refine ⟨⟨hj, hid, (finalizedJob_id d _ j).trans hid⟩, ⟨ha, hajob, hajob⟩, ⟨hl, hljob, hljob⟩,
      ?_, ?_, by simp [finalizeWrites]⟩
    · intro e he
      rw [finalize_event_mem he]
      exact congrArg some hid
    · intro e he
      obtain ⟨reason, -, rfl⟩ := finalize_entry_mem he
      exact hid
  | cancellation o ls j a l holds cancels identity =>
    obtain ⟨⟨hj, hid⟩, ⟨ha, hajob⟩, hl, hljob⟩ := holds.rows
    constructor <;> simp [cancellationWrites, RowWrite.Within, canceledJob, canceledAttempt,
      closedLease, hj, hid, ha, hajob, hl, hljob]

end Rows

/-! ## The refinement -/

/-- What a committed transaction did. -/
inductive Effect (env : Env) (db db' : DB) : Prop where
  | unchanged (same : db' = db)
  | sessions (only : SessionsOnly db db') (kept : SessionsKept db db')
      (workers : ∀ x ∈ db.workers.rows, ∃ y ∈ db'.workers.rows, y.id = x.id ∧ y.scope = x.scope)
      (owned : ∀ s' ∈ db'.sessions.rows,
        (∃ s ∈ db.sessions.rows, s'.registeredAt = s.registeredAt ∧ s'.workerID = s.workerID ∧
          s'.scope = s.scope) ∨
        (s'.registeredAt ≤ env.clock.s₂ ∧
          ∃ y ∈ db'.workers.rows, y.id = s'.workerID ∧ y.scope = s'.scope))
  | move (id : UUID) (w : Writes) (lawful : Lawful env db id w) (applied : w.Applied db db')

section Refinement

variable {env : Env} {db db' : DB}
variable {s : WorkerSession} {w : Writes} {j : Job} {call : Call} {id : UUID}

theorem SessionMoved.effect {s' : WorkerSession} (h : SessionMoved db db' s s')
    (hs : Outlived s s') : Effect env db db' := by
  refine .sessions h.only (h.kept hs) ?_ ?_
  · intro x hx
    exact ⟨x, h.workers ▸ hx, rfl, rfl⟩
  · intro t ht
    rw [h.rows, mem_replaceRow] at ht
    rcases ht with ⟨ht, -⟩ | ⟨rfl, hmem⟩
    · exact .inl ⟨t, ht, rfl, rfl, rfl⟩
    · exact .inl ⟨s, hmem, hs.registered, hs.worker, hs.scope⟩

theorem RegisteredSessions.effect {scope : String} {reg : Registration} {wid : UUID}
    (h : RegisteredSessions env scope reg wid db db') (honly : SessionsOnly db db')
    (hworkers : Upserted scope wid db.workers.rows db'.workers.rows) : Effect env db db' := by
  refine .sessions honly h.kept hworkers.kept ?_
  cases h with
  | replayed s mem id worker healthy same =>
    intro t ht
    exact .inl ⟨t, same ▸ ht, rfl, rfl, rfl⟩
  | fresh rows =>
    intro t ht
    rw [rows, List.mem_append, List.mem_map, List.mem_singleton] at ht
    rcases ht with ⟨s, hs, rfl⟩ | rfl
    · refine .inl ⟨s, hs, ?_⟩
      split <;> exact ⟨rfl, rfl, rfl⟩
    · exact .inr ⟨le_rfl, hworkers.named⟩

/-- A new job's id names no job: the table it went into holds one row per id. -/
theorem unborn_of_insert (happ : w.Applied db db') (hw : w.job = .insert j) :
    (db.caseFile j.id).job = none := by
  cases hcf : (db.caseFile j.id).job with
  | none => rfl
  | some k =>
    obtain ⟨hk, hkid⟩ := caseFile_job_eq_some.mp hcf
    have hrows : db'.jobs.rows = db.jobs.rows ++ [j] := by rw [happ.jobs, hw]; rfl
    have hunique := db'.jobs.unique
    rw [hrows, List.pairwise_append] at hunique
    have hclash := hunique.2.2 k hk j (List.mem_singleton.mpr rfl)
    rw [show jobs.clash k j = true from sameKey_eq_true.mpr ⟨k.id, rfl, by rw [hkid]⟩] at hclash
    cases hclash

/-- Reconciliation's verdicts are moves. -/
theorem Verdict.lawful {a : JobAttempt} {l : Lease} (h : Verdict env l.scope j a l w)
    (hA : Authority db l.scope l.fence s j a l) (hL : Lapsed env.clock.s₀ a l) :
    Lawful env db j.id w := by
  cases h with
  | canceled job => exact .cancellation none .expired j a l hA.holds (.lapsed hL job) (by simp)
  | timedOut d job outlived decision =>
    exact .finalize l.scope _ d j a l hA.holds hA.job_scope (.outlived hL job outlived) decision
      (by simp [timeoutOutcome])
  | abandoned d job lapsed decision =>
    exact .finalize l.scope _ d j a l hA.holds hA.job_scope (.abandoned hL job lapsed) decision
      (by simp [abandonedOutcome])

/-- The writes of a call are a move of its job. A birth is one if its id is free. -/
theorem Performs.lawful (h : Performs env db call id w)
    (hborn : ∀ j, w.job = .insert j → (db.caseFile j.id).job = none) : Lawful env db id w := by
  cases h with
  | submit scope key req trace queue =>
    exact .submit scope key req trace (hborn _ rfl) rfl queue
  | replay scope originalJobID key original ready =>
    have hready : ReplayReady scope original.id db original := by rw [ready.id]; exact ready
    exact .replay scope key original (hborn _ rfl) rfl hready
  | cancel scope j target mem scope_eq cancelable =>
    exact .cancel j target (caseFile_job_of_mem mem) cancelable
  | promote j mem promotable => exact .promote j (caseFile_job_of_mem mem) promotable
  | renotify j after mem stranded => exact .renotify j after (caseFile_job_of_mem mem) stranded
  | claim scope req s j ready =>
    exact .claim scope req s j (caseFile_job_of_mem ready.job_mem) ready
  | start scope fence s j a l binding live job attempt =>
    exact .start s j a l binding.holds live job attempt
  | renew scope req s j a l binding ready => exact .renew s j a l req binding.holds ready
  | succeed scope fence result s j a l binding ready =>
    exact .succeed scope result s j a l binding.holds binding.job_scope ready
  | fail scope report s j a l d binding ready =>
    refine .finalize scope _ d j a l binding.holds binding.job_scope
      (.failed s report ready.valid ready.live ready.inTime ready.job ready.attempt)
      ready.decision ?_
    rintro o ho
    cases ho
    exact ready.identity
  | acknowledge scope ack s j a l binding ready =>
    refine .cancellation _ _ j a l binding.holds
      (.acknowledged s ack.outcomeRequestID ready.live ready.job ready.attempt) ?_
    rintro o ho
    cases ho
    exact ready.identity
  | timeOut stats s j a l d binding due decision =>
    exact .finalize l.scope _ d j a l binding.holds binding.job_scope (.timedOut due) decision
      (by simp [timeoutOutcome])
  | expire stats s j a l w binding lapsed verdict => exact verdict.lawful binding lapsed

/-- A job that is rewritten was no dead letter, and keeps its id, scope and queue. -/
theorem Performs.rewritten {writes : Writes} {j' : Job} (h : Performs env db call id writes)
    (hw : writes.job = .replace j j') :
    j.status ≠ .deadLettered ∧ j'.id = j.id ∧ j'.scope = j.scope ∧ j'.queue = j.queue := by
  have hexecuting : ∀ {s : JobStatus}, isExecutingJobStatus s = true → s ≠ .deadLettered := by
    rintro s hs rfl
    cases hs
  cases h with
  | submit | replay | renew => cases hw
  | cancel scope j target mem scope_eq cancelable =>
    cases hw
    refine ⟨fun hdead => ?_, rfl, rfl, rfl⟩
    rw [hdead] at cancelable
    cases cancelable
  | promote j mem promotable =>
    cases hw
    refine ⟨fun hdead => ?_, rfl, rfl, rfl⟩
    simp [isPromotable, hdead] at promotable
  | renotify j after mem stranded =>
    cases hw
    refine ⟨fun hdead => ?_, rfl, rfl, rfl⟩
    simp [isStranded, hdead] at stranded
  | claim scope req s j ready =>
    cases hw
    obtain ⟨⟨-, -, hqueued, -⟩, -⟩ := isEligible_eq_true.mp ready.eligible
    exact ⟨by rw [hqueued]; decide, rfl, rfl, rfl⟩
  | start scope fence s j a l binding live job attempt =>
    cases hw
    exact ⟨by rw [job]; decide, rfl, rfl, rfl⟩
  | succeed scope fence result s j a l binding ready
  | acknowledge scope ack s j a l binding ready =>
    cases hw
    exact ⟨by rw [ready.job]; decide, rfl, rfl, rfl⟩
  | fail scope report s j a l d binding ready =>
    cases hw
    exact ⟨by rw [ready.job]; decide, by simp⟩
  | timeOut stats s j a l d binding due decision =>
    cases hw
    exact ⟨by rw [due.job]; decide, by simp⟩
  | expire stats s j a l w binding lapsed verdict =>
    cases verdict with
    | canceled job =>
      cases hw
      exact ⟨by rw [job]; decide, rfl, rfl, rfl⟩
    | timedOut d job | abandoned d job =>
      cases hw
      exact ⟨hexecuting job, by simp⟩

/-- **The refinement.** A committed transaction is a lawful move of one job, or
touches sessions only, or changes nothing. -/
theorem Commit.effect (h : Commit env db db' call) : Effect env db db' := by
  cases h with
  | unchanged call same => exact .unchanged same
  | registered scope registration reg wid valid only workers sessions =>
    exact sessions.effect only workers
  | beat scope req s session scope_eq healthy moved => exact moved.effect ⟨rfl, rfl, rfl, rfl, rfl, .inl rfl⟩
  | staled s staleAfter stale moved => exact moved.effect ⟨rfl, rfl, rfl, rfl, rfl, .inr rfl⟩
  | wrote call id w performs applied =>
    exact .move id w (performs.lawful fun _ hw => unborn_of_insert applied hw) applied

/-- What a step did, whatever it answered. -/
theorem Step.effect {w w' : World} {l : Label} (h : Step w l w') :
    Effect l.request.env w.db w'.db := h.commit.effect

end Refinement

end TaskForge
