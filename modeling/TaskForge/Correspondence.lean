/-
The three tables agree: jobs, attempts and leases.

What `Phase` says of one case file, said of the tables. Every attempt has one
lease, which is active exactly while the attempt executes; only a job's highest
attempt can be executing, and the job's status says how. The second half is what
this buys the transactions: none of their `UPDATE`s can miss its row, so the
branches the source labels "changed during" are dead code in every run.
-/
import TaskForge.Invariant

open Relational Fallible

namespace TaskForge

/-! ## Reading the ledger -/

section Ledger

variable {now : Int} {j : Job} {cf : CaseFile} {a : JobAttempt} {l : Lease}

/-- Attempts and leases stand against each other, and a lease is active exactly
while its attempt executes. -/
theorem Phase.ledger (h : Phase now j cf) :
    List.Forall₂ (fun a l => Bound j.id j.scope j.queue a l ∧
      (l.status = .active ↔ isExecutingAttemptStatus a.status = true)) cf.attempts cf.leases := by
  have hclosed : ∀ a l, (Bound j.id j.scope j.queue a l ∧ ClosedRun a l) →
      Bound j.id j.scope j.queue a l ∧
        (l.status = .active ↔ isExecutingAttemptStatus a.status = true) := by
    rintro a l ⟨hbound, hrun⟩
    refine ⟨hbound, fun hl => absurd hl hrun.lease, fun ha => ?_⟩
    rw [hrun.attempt] at ha
    cases ha
  cases h with
  | waiting status waits => exact waits.history.runs.imp hclosed
  | executing past pastLeases a l run =>
    rw [run.attempts, run.leases]
    exact Ledger.snoc (run.history.runs.imp hclosed)
      ⟨run.bound, fun _ => run.open_.attempt, fun _ => run.open_.lease⟩
  | ended history final room => exact history.runs.imp hclosed

theorem Phase.numbered (h : Phase now j cf) :
    Ledger.Numbered JobAttempt.attemptNumber cf.attempts := by
  cases h with
  | waiting status waits => exact waits.history.numbers
  | executing past pastLeases a l run =>
    rw [run.attempts]
    exact run.history.numbers.snoc run.number
  | ended history final room => exact history.numbers

/-- An executing attempt carries the highest number. -/
theorem Phase.executing_number (h : Phase now j cf) (ha : a ∈ cf.attempts)
    (hex : isExecutingAttemptStatus a.status = true) : a.attemptNumber = cf.attempts.length := by
  obtain ⟨past, pastLeases, l, run⟩ := h.run_of_executing ha hex
  rw [run.attempts, List.length_append, List.length_singleton, run.number]

/-- An attempt that is not executing is history, and so is its lease. -/
theorem Phase.closed_run (h : Phase now j cf) (ha : a ∈ cf.attempts)
    (hclosed : isExecutingAttemptStatus a.status = false) :
    ∃ l ∈ cf.leases, Bound j.id j.scope j.queue a l ∧ ClosedRun a l := by
  cases h with
  | waiting status waits => exact Ledger.exists_right waits.history.runs ha
  | executing past pastLeases b m run =>
    rw [run.attempts, List.mem_append, List.mem_singleton] at ha
    rcases ha with hpast | rfl
    · obtain ⟨l, hl, hrun⟩ := Ledger.exists_right run.history.runs hpast
      refine ⟨l, ?_, hrun⟩
      rw [run.leases]
      exact List.mem_append_left _ hl
    · rw [run.open_.attempt] at hclosed
      cases hclosed
  | ended history final room => exact Ledger.exists_right history.runs ha

end Ledger

/-! ## The tables -/

/-- `a` is the highest-numbered attempt of `j`. -/
structure Highest (db : DB) (j : Job) (a : JobAttempt) : Prop where
  mem : a ∈ db.attempts.rows
  job : a.jobID = j.id
  highest : ∀ b ∈ db.attempts.rows, b.jobID = j.id → b.attemptNumber ≤ a.attemptNumber

/-- Jobs, attempts and leases agree. -/
structure Corresponds (db : DB) : Prop where
  /-- Every attempt has exactly one lease, active iff the attempt is executing. -/
  lease : ∀ a ∈ db.attempts.rows, ∃ l ∈ db.leases.rows, l.attemptID = a.id ∧
    (∀ m ∈ db.leases.rows, m.attemptID = a.id → m = l) ∧
    (l.status = .active ↔ isExecutingAttemptStatus a.status = true)
  /-- Every attempt of a job but the highest-numbered one is terminal. -/
  superseded : ∀ a ∈ db.attempts.rows, ∀ b ∈ db.attempts.rows, a.jobID = b.jobID →
    a.attemptNumber < b.attemptNumber → isExecutingAttemptStatus a.status = false
  leased : ∀ j ∈ db.jobs.rows, j.status = .leased → ∃ a, Highest db j a ∧ a.status = .leased
  running : ∀ j ∈ db.jobs.rows, j.status = .running → ∃ a, Highest db j a ∧ a.status = .running
  cancelRequested : ∀ j ∈ db.jobs.rows, j.status = .cancelRequested →
    ∃ a, Highest db j a ∧ (a.status = .leased ∨ a.status = .running)
  succeeded : ∀ j ∈ db.jobs.rows, j.status = .succeeded → ∃ a, Highest db j a ∧
    a.status = .succeeded ∧ ∃ l ∈ db.leases.rows, l.attemptID = a.id ∧ l.status = .completed
  /-- No attempt of any other job is executing. -/
  idle : ∀ j ∈ db.jobs.rows,
    j.status ≠ .leased → j.status ≠ .running → j.status ≠ .cancelRequested →
    ∀ a ∈ db.attempts.rows, a.jobID = j.id → isExecutingAttemptStatus a.status = false

section Tables

variable {w : World}
variable {j : Job} {a : JobAttempt} {l : Lease}

/-- The phase of a stored job. -/
theorem Sound.phase (h : Sound w) (hj : j ∈ w.db.jobs.rows) :
    Phase w.clock j (w.db.caseFile j.id) := (h.cases j.id).phase (caseFile_job_of_mem hj)

/-- Every attempt is an attempt of a stored job. -/
theorem Sound.job_of_attempt (h : Sound w) (ha : a ∈ w.db.attempts.rows) :
    ∃ j ∈ w.db.jobs.rows, j.id = a.jobID := by
  have hmem : a ∈ (w.db.caseFile a.jobID).attempts := mem_caseFile_attempts.mpr ⟨ha, rfl⟩
  cases hj : (w.db.caseFile a.jobID).job with
  | none =>
    rw [((h.cases a.jobID).unborn hj).1] at hmem
    cases hmem
  | some j => exact ⟨j, caseFile_job_eq_some.mp hj⟩

/-- The last attempt of a numbered case file is the highest. -/
theorem highest_of_last {db : DB} {past : List JobAttempt}
    (hnum : Ledger.Numbered JobAttempt.attemptNumber (db.caseFile j.id).attempts)
    (hlast : (db.caseFile j.id).attempts = past ++ [a]) : Highest db j a := by
  have ha : a ∈ (db.caseFile j.id).attempts := by
    rw [hlast]
    exact List.mem_concat_self
  obtain ⟨hmem, hjob⟩ := mem_caseFile_attempts.mp ha
  refine ⟨hmem, hjob, fun b hb hbjob => ?_⟩
  have hbound := (hnum.bounds (mem_caseFile_attempts.mpr ⟨hb, hbjob⟩)).2
  rw [hlast] at hnum hbound
  rw [hnum.last]
  simpa using hbound

/-- The run of a job whose status says that one is going on. -/
theorem Sound.run_of_working (h : Sound w) (hj : j ∈ w.db.jobs.rows)
    (hs : isExecutingJobStatus j.status = true ∨ j.status = .cancelRequested) :
    ∃ past pastLeases a l,
      Executing w.clock j (w.db.caseFile j.id) past pastLeases a l ∧ Highest w.db j a := by
  have hphase := h.phase hj
  have hnum := hphase.numbered
  cases hphase with
  | waiting status waits =>
    rcases status with he | he | he <;> rw [he] at hs <;> simp [isExecutingJobStatus] at hs
  | executing past pastLeases a l run =>
    exact ⟨past, pastLeases, a, l, run, highest_of_last hnum run.attempts⟩
  | ended history final room =>
    have hterm := final.terminal
    rcases hs with hs | hs
    · cases he : j.status <;> rw [he] at hs hterm <;> cases hs <;> cases hterm
    · rw [hs] at hterm
      cases hterm

/-- An attempt's lease: the one against it in the ledger, and no other, since a
lease's attempt id is unique. -/
theorem Sound.lease_of_attempt (h : Sound w) (ha : a ∈ w.db.attempts.rows) :
    ∃ l ∈ w.db.leases.rows, l.attemptID = a.id ∧
      (∀ m ∈ w.db.leases.rows, m.attemptID = a.id → m = l) ∧
      (l.status = .active ↔ isExecutingAttemptStatus a.status = true) := by
  obtain ⟨j, hj, hjob⟩ := h.job_of_attempt ha
  have hmem : a ∈ (w.db.caseFile j.id).attempts := mem_caseFile_attempts.mpr ⟨ha, hjob.symm⟩
  obtain ⟨l, hl, hbound, hiff⟩ := Ledger.exists_right (h.phase hj).ledger hmem
  have hl' := (mem_caseFile_leases.mp hl).1
  refine ⟨l, hl', hbound.lease_attempt, fun m hm hma => ?_, hiff⟩
  exact w.db.lease_eq_of_attempt hm hl' (hma.trans hbound.lease_attempt.symm)

/-- Every lease is of a stored job. -/
theorem Sound.job_of_lease (h : Sound w) (hl : l ∈ w.db.leases.rows) :
    ∃ j ∈ w.db.jobs.rows, l ∈ (w.db.caseFile j.id).leases := by
  have hmem : l ∈ (w.db.caseFile l.jobID).leases := mem_caseFile_leases.mpr ⟨hl, rfl⟩
  cases hj : (w.db.caseFile l.jobID).job with
  | none =>
    rw [((h.cases l.jobID).unborn hj).2.1] at hmem
    cases hmem
  | some j =>
    obtain ⟨hjmem, hjid⟩ := caseFile_job_eq_some.mp hj
    exact ⟨j, hjmem, hjid ▸ hmem⟩

/-- And of one of its runs. -/
theorem Sound.run_of_lease (h : Sound w) (hl : l ∈ w.db.leases.rows) :
    ∃ j ∈ w.db.jobs.rows, ∃ a ∈ w.db.attempts.rows, Bound j.id j.scope j.queue a l := by
  obtain ⟨j, hj, hmem⟩ := h.job_of_lease hl
  obtain ⟨a, ha, hbound, -⟩ := Ledger.exists_left (h.phase hj).ledger hmem
  exact ⟨j, hj, a, (mem_caseFile_attempts.mp ha).1, hbound⟩

/-- The rows that the fence of a lease names. -/
theorem Sound.authority_of_bound (h : Sound w) (hj : j ∈ w.db.jobs.rows)
    (ha : a ∈ w.db.attempts.rows) (hl : l ∈ w.db.leases.rows)
    (hb : Bound j.id j.scope j.queue a l) : ∃ s, Authority w.db l.scope l.fence s j a l := by
  obtain ⟨s, hs, hsid, hsworker, hsscope⟩ := h.bindings a ha
  obtain ⟨q, hq, hqname⟩ := h.queues j hj
  exact ⟨s, {
    session_mem := hs
    session_id := hsid.trans hb.session.symm
    session_worker := hsworker.trans hb.worker.symm
    session_scope := by rw [hsscope, hb.attempt_scope, hb.lease_scope]
    job_mem := hj
    job_id := hb.lease_job.symm
    job_scope := hb.lease_scope.symm
    attempt_mem := ha
    attempt_id := hb.lease_attempt.symm
    attempt_job := hb.attempt_job.trans hb.lease_job.symm
    attempt_worker := hb.worker.symm
    attempt_session := hb.session.symm
    attempt_scope := hb.attempt_scope.trans hb.lease_scope.symm
    lease_mem := hl
    lease_id := rfl
    lease_job := rfl
    lease_attempt := rfl
    lease_worker := rfl
    lease_session := rfl
    lease_scope := rfl
    queue_known := ⟨q, hq, hqname.trans hb.lease_queue.symm⟩ }⟩

/-- An attempt with a successor is not executing. -/
theorem Sound.superseded_closed (h : Sound w) {b : JobAttempt} (ha : a ∈ w.db.attempts.rows)
    (hb : b ∈ w.db.attempts.rows) (hjob : a.jobID = b.jobID)
    (hlt : a.attemptNumber < b.attemptNumber) : isExecutingAttemptStatus a.status = false := by
  obtain ⟨j, hj, hja⟩ := h.job_of_attempt ha
  have hphase := h.phase hj
  have hmema : a ∈ (w.db.caseFile j.id).attempts := mem_caseFile_attempts.mpr ⟨ha, hja.symm⟩
  have hmemb : b ∈ (w.db.caseFile j.id).attempts :=
    mem_caseFile_attempts.mpr ⟨hb, hjob.symm.trans hja.symm⟩
  by_contra hex
  rw [Bool.not_eq_false] at hex
  have hnum := hphase.executing_number hmema hex
  have hle := (hphase.numbered.bounds hmemb).2
  omega

/-- The run of a job that succeeded. -/
theorem Sound.succeeded_run (h : Sound w) (hj : j ∈ w.db.jobs.rows) (hs : j.status = .succeeded) :
    ∃ a, Highest w.db j a ∧ a.status = .succeeded ∧
      ∃ l ∈ w.db.leases.rows, l.attemptID = a.id ∧ l.status = .completed := by
  have hphase := h.phase hj
  have hnum := hphase.numbered
  cases hphase with
  | waiting status waits =>
    rcases status with he | he | he <;> rw [he] at hs <;> cases hs
  | executing past pastLeases a l run =>
    rcases run.status with ⟨he, -⟩ | ⟨he, -⟩ | ⟨he, -⟩ <;> rw [he] at hs <;> cases hs
  | ended history final room =>
    cases final with
    | succeeded status past a attempts retried last dlq results =>
      have hhigh := highest_of_last hnum attempts
      have hmem := mem_caseFile_attempts.mpr ⟨hhigh.mem, hhigh.job⟩
      obtain ⟨l, hl, hbound, hclosed⟩ := Ledger.exists_right history.runs hmem
      exact ⟨a, hhigh, last, l, (mem_caseFile_leases.mp hl).1, hbound.lease_attempt,
        hclosed.completed last⟩
    | canceled status => rw [status] at hs; cases hs
    | dead status => rw [status] at hs; cases hs

/-- A job whose status says that no run is going on has none. -/
theorem Sound.idle (h : Sound w) (hj : j ∈ w.db.jobs.rows)
    (hex : isExecutingJobStatus j.status = false) (hc : j.status ≠ .cancelRequested)
    (ha : a ∈ w.db.attempts.rows) (hjob : a.jobID = j.id) :
    isExecutingAttemptStatus a.status = false := by
  have hmem : a ∈ (w.db.caseFile j.id).attempts := mem_caseFile_attempts.mpr ⟨ha, hjob⟩
  cases h.phase hj with
  | waiting status waits => exact waits.history.attempt_closed hmem
  | executing past pastLeases b l run =>
    rcases run.status.executing with hs | hs
    · rw [hs] at hex
      cases hex
    · exact absurd hs hc
  | ended history final room => exact history.attempt_closed hmem

/-- **The tables of a sound state agree.** -/
theorem Sound.corresponds (h : Sound w) : Corresponds w.db where
  lease _ ha := h.lease_of_attempt ha
  superseded _ ha _ hb := h.superseded_closed ha hb
  leased j hj hs := by
    obtain ⟨past, pastLeases, a, l, hrun, hhigh⟩ := h.run_of_working hj (.inl (by rw [hs]; rfl))
    refine ⟨a, hhigh, ?_⟩
    rcases hrun.status with ⟨-, ha⟩ | ⟨he, -⟩ | ⟨he, -⟩
    · exact ha
    · rw [he] at hs; cases hs
    · rw [he] at hs; cases hs
  running j hj hs := by
    obtain ⟨past, pastLeases, a, l, hrun, hhigh⟩ := h.run_of_working hj (.inl (by rw [hs]; rfl))
    refine ⟨a, hhigh, ?_⟩
    rcases hrun.status with ⟨he, -⟩ | ⟨-, ha⟩ | ⟨he, -⟩
    · rw [he] at hs; cases hs
    · exact ha
    · rw [he] at hs; cases hs
  cancelRequested j hj hs := by
    obtain ⟨past, pastLeases, a, l, hrun, hhigh⟩ := h.run_of_working hj (.inr hs)
    refine ⟨a, hhigh, ?_⟩
    have hex := hrun.open_.attempt
    cases ha : a.status <;> rw [ha] at hex <;> cases hex
    · exact .inl rfl
    · exact .inr rfl
  succeeded _ hj hs := h.succeeded_run hj hs
  idle j hj hl hr hc _ ha hjob := by
    refine h.idle hj ?_ hc ha hjob
    cases hs : j.status <;> first | rfl | exact absurd hs hl | exact absurd hs hr

end Tables

/-! ## No `UPDATE` misses its row -/

/-- A refused step was refused by the code's own checks or by the schema. -/
theorem Step.not_rowsAffected {w w' : World} {l : Label} {f : Failure} (h : Step w l w')
    (hf : l.outcome = .error f) : f.cause ≠ .rowsAffected := by
  intro hcause
  obtain ⟨t, v, hschema⟩ := (Call.refusal (by rw [hcause]; simp) (h.failed rfl hf).1).cause
  rw [hschema] at hcause
  cases hcause

/-- In every state a run reaches, jobs, attempts and leases agree; and no step of
the run was refused because an `UPDATE` under locks missed its row. -/
theorem tables_correspond {w₀ w : World} {trace : List Label} (hinit : Initial w₀)
    (hrun : Execution w₀ trace w) :
    Corresponds w.db ∧ ∀ l ∈ trace, ∀ f, l.outcome = .error f → f.cause ≠ .rowsAffected := by
  refine ⟨(Reachable.sound ⟨w₀, trace, hinit, hrun⟩).corresponds, fun l hl f hf => ?_⟩
  obtain ⟨-, -, w₁, w₂, -, -, hstep, -⟩ := hrun.exists_step_of_mem hl
  exact hstep.not_rowsAffected hf

/-- A run that leaves an attempt running. -/
theorem tables_correspond_sample :
    (quiet.exec sampleStart).2.db.attempts.rows.map JobAttempt.status = [.running] ∧
      Corresponds (quiet.exec sampleStart).2.db ∧
      ∀ l ∈ (quiet.exec sampleStart).1, ∀ f, l.outcome = .error f → f.cause ≠ .rowsAffected :=
  ⟨by decide +kernel, tables_correspond quiet_initial (World.exec_run (by decide +kernel))⟩

end TaskForge
