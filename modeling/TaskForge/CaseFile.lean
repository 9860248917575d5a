/-
One job's case file: everything the database holds about it.

The store transactions write several tables, but a transaction that touches a
job touches one job only, and every row it writes names that job. So the state
of the system falls apart into case files, one per job id: the job's row, its
attempts and leases in the order they were issued, its notifications, its
dead-letter entries and its results. What a transaction writes is a `Writes`;
`caseFile_applied` says what it does to the case file it is about, and that it
does nothing to any other. The layers above reason about one case file at a
time.
-/
import TaskForge.Statement

open Relational

namespace TaskForge

/-! ## Case files -/

/-- What the database holds about one job id. -/
@[ext]
structure CaseFile where
  job : Option Job
  attempts : List JobAttempt
  leases : List Lease
  events : List OutboxEvent
  dlq : List DLQEntry
  results : List ResultRow
deriving DecidableEq

/-- The case file of `id`. -/
def DB.caseFile (db : DB) (id : UUID) : CaseFile where
  job := db.jobs.rows.find? fun j => decide (j.id = id)
  attempts := db.attempts.rows.filter fun a => decide (a.jobID = id)
  leases := db.leases.rows.filter fun l => decide (l.jobID = id)
  events := db.outbox.rows.filter fun e => decide (e.jobID = some id)
  dlq := db.dlqEntries.rows.filter fun d => decide (d.jobID = id)
  results := db.results.rows.filter fun r => decide (r.jobID = id)

/-! ## Writes -/

/-- What one transaction writes about one job. -/
structure Writes where
  job : RowWrite Job := .keep
  attempt : RowWrite JobAttempt := .keep
  lease : RowWrite Lease := .keep
  events : List OutboxEvent := []
  dlq : List DLQEntry := []
  results : List ResultRow := []
  idempotency : List IdempotencyRecord := []
  replays : List DLQReplay := []

/-- `db'` is `db` after the writes, and differs from it in nothing else. -/
structure Writes.Applied (w : Writes) (db db' : DB) : Prop where
  queues : db'.queues = db.queues
  workers : db'.workers = db.workers
  sessions : db'.sessions = db.sessions
  jobs : db'.jobs.rows = w.job.apply db.jobs.rows
  attempts : db'.attempts.rows = w.attempt.apply db.attempts.rows
  leases : db'.leases.rows = w.lease.apply db.leases.rows
  outbox : db'.outbox.rows = db.outbox.rows ++ w.events
  dlqEntries : db'.dlqEntries.rows = db.dlqEntries.rows ++ w.dlq
  results : db'.results.rows = db.results.rows ++ w.results
  idempotency : db'.idempotency.rows = db.idempotency.rows ++ w.idempotency
  dlqReplays : db'.dlqReplays.rows = db.dlqReplays.rows ++ w.replays

/-- Every row written names the job `id`. -/
structure Writes.About (w : Writes) (db : DB) (id : UUID) : Prop where
  job : w.job.Within Job.id id db.jobs.rows
  attempt : w.attempt.Within JobAttempt.jobID id db.attempts.rows
  lease : w.lease.Within Lease.jobID id db.leases.rows
  events : ∀ e ∈ w.events, e.jobID = some id
  dlq : ∀ d ∈ w.dlq, d.jobID = id
  results : ∀ r ∈ w.results, r.jobID = id

/-- The writes, made to the case file they are about. -/
def CaseFile.write (cf : CaseFile) (w : Writes) : CaseFile where
  job := match w.job with
    | .keep => cf.job
    | .insert j => some j
    | .replace _ new => some new
  attempts := w.attempt.apply cf.attempts
  leases := w.lease.apply cf.leases
  events := cf.events ++ w.events
  dlq := cf.dlq ++ w.dlq
  results := cf.results ++ w.results

/-- `f` is the schema's refusal of one of the rows written. -/
inductive Writes.Refused (w : Writes) (db : DB) (f : Failure) : Prop where
  | job (h : RowWriteRefused .jobs db.jobs w.job f)
  | attempt (h : RowWriteRefused .jobAttempts db.attempts w.attempt f)
  | lease (h : RowWriteRefused .leases db.leases w.lease f)
  | event (e : OutboxEvent) (he : e ∈ w.events) (h : InsertRefused .outboxEvents db.outbox e f)
  | dlq (d : DLQEntry) (hd : d ∈ w.dlq) (h : InsertRefused .dlqEntries db.dlqEntries d f)
  | result (r : ResultRow) (hr : r ∈ w.results) (h : InsertRefused .results db.results r f)
  | idempotency (i : IdempotencyRecord) (hi : i ∈ w.idempotency)
      (h : InsertRefused .idempotencyRecords db.idempotency i f)
  | replay (r : DLQReplay) (hr : r ∈ w.replays)
      (h : InsertRefused .dlqReplays db.dlqReplays r f)

/-! ## Rows of a case file -/

section Rows

variable {db : DB} {id : UUID}

theorem mem_caseFile_attempts {a : JobAttempt} :
    a ∈ (db.caseFile id).attempts ↔ a ∈ db.attempts.rows ∧ a.jobID = id := by
  simp [DB.caseFile]

theorem mem_caseFile_leases {l : Lease} :
    l ∈ (db.caseFile id).leases ↔ l ∈ db.leases.rows ∧ l.jobID = id := by
  simp [DB.caseFile]

theorem mem_caseFile_dlq {d : DLQEntry} :
    d ∈ (db.caseFile id).dlq ↔ d ∈ db.dlqEntries.rows ∧ d.jobID = id := by
  simp [DB.caseFile]

theorem mem_caseFile_results {r : ResultRow} :
    r ∈ (db.caseFile id).results ↔ r ∈ db.results.rows ∧ r.jobID = id := by
  simp [DB.caseFile]

theorem caseFile_job_eq_some {j : Job} :
    (db.caseFile id).job = some j ↔ j ∈ db.jobs.rows ∧ j.id = id := by
  constructor
  · intro h
    obtain ⟨hm, hid⟩ := found_of_find? h
    exact ⟨hm, by simpa using hid⟩
  · rintro ⟨hj, rfl⟩
    cases hf : (db.caseFile j.id).job with
    | none => simpa using List.find?_eq_none.mp hf j hj
    | some k =>
      obtain ⟨hfm, hk⟩ := found_of_find? hf
      rw [db.job_eq_of_id hfm hj (by simpa using hk)]

theorem caseFile_job_of_mem {j : Job} (hj : j ∈ db.jobs.rows) :
    (db.caseFile j.id).job = some j := caseFile_job_eq_some.mpr ⟨hj, rfl⟩

end Rows

/-! ## What the writes do to case files -/

section Applied

variable {db db' : DB} {id : UUID} {w : Writes}

/-- Appended rows that all belong to a group are what the group gains. -/
theorem filter_append_group {R κ : Type} [DecidableEq κ] {key : R → κ} {k : κ} {rows new : List R}
    (h : ∀ r ∈ new, key r = k) :
    (rows ++ new).filter (fun r => decide (key r = k)) = (rows.filter fun r => decide (key r = k)) ++ new := by
  have hall : new.filter (fun r => decide (key r = k)) = new := by
    rw [List.filter_eq_self]
    intro r hr
    simp [h r hr]
  rw [List.filter_append, hall]

/-- Appended rows of another group are not seen. -/
theorem filter_append_other {R κ : Type} [DecidableEq κ] {key : R → κ} {k k' : κ}
    {rows new : List R} (h : ∀ r ∈ new, key r = k) (hk : k' ≠ k) :
    (rows ++ new).filter (fun r => decide (key r = k')) = rows.filter fun r => decide (key r = k') := by
  have hnone : new.filter (fun r => decide (key r = k')) = [] := by
    rw [List.filter_eq_nil_iff]
    intro r hr
    simp [h r hr, hk.symm]
  rw [List.filter_append, hnone, List.append_nil]

/-- The job row of the case file written to. A new row is found because ids are
unique: had there been a row with its id, the table would hold two. -/
theorem caseFile_job_applied (h : w.Applied db db') (hw : w.About db id) :
    (db'.caseFile id).job = ((db.caseFile id).write w).job := by
  have hjobs := h.jobs
  have hin := hw.job
  unfold CaseFile.write
  cases hwj : w.job with
  | keep =>
    rw [hwj] at hjobs
    exact congrArg (List.find? fun j => decide (j.id = id)) hjobs
  | insert j =>
    rw [hwj] at hjobs hin
    have hj : j ∈ db'.jobs.rows := by rw [hjobs]; simp [RowWrite.apply]
    exact caseFile_job_eq_some.mpr ⟨hj, hin⟩
  | replace old new =>
    rw [hwj] at hjobs hin
    obtain ⟨ho, -, hn⟩ := hin
    have hnew : new ∈ db'.jobs.rows := by
      rw [hjobs]
      exact mem_replaceRow.mpr (.inr ⟨rfl, ho⟩)
    exact caseFile_job_eq_some.mpr ⟨hnew, hn⟩

/-- The case file the writes are about is written. -/
theorem caseFile_applied (h : w.Applied db db') (hw : w.About db id) :
    db'.caseFile id = (db.caseFile id).write w := by
  refine CaseFile.ext (caseFile_job_applied h hw) ?_ ?_ ?_ ?_ ?_
  · simp only [DB.caseFile, CaseFile.write, h.attempts]
    exact RowWrite.filter_apply hw.attempt
  · simp only [DB.caseFile, CaseFile.write, h.leases]
    exact RowWrite.filter_apply hw.lease
  · simp only [DB.caseFile, CaseFile.write, h.outbox]
    exact filter_append_group hw.events
  · simp only [DB.caseFile, CaseFile.write, h.dlqEntries]
    exact filter_append_group hw.dlq
  · simp only [DB.caseFile, CaseFile.write, h.results]
    exact filter_append_group hw.results

/-- No other case file changes. -/
theorem caseFile_applied_of_ne (h : w.Applied db db') (hw : w.About db id) {id' : UUID}
    (hne : id' ≠ id) : db'.caseFile id' = db.caseFile id' := by
  refine CaseFile.ext ?_ ?_ ?_ ?_ ?_ ?_
  · simp only [DB.caseFile, h.jobs]
    rw [← List.head?_filter, ← List.head?_filter]
    exact congrArg List.head? (RowWrite.filter_apply_of_ne hw.job hne)
  · simp only [DB.caseFile, h.attempts]
    exact RowWrite.filter_apply_of_ne hw.attempt hne
  · simp only [DB.caseFile, h.leases]
    exact RowWrite.filter_apply_of_ne hw.lease hne
  · simp only [DB.caseFile, h.outbox]
    exact filter_append_other hw.events (fun he => hne (Option.some.inj he))
  · simp only [DB.caseFile, h.dlqEntries]
    exact filter_append_other hw.dlq hne
  · simp only [DB.caseFile, h.results]
    exact filter_append_other hw.results hne

end Applied

end TaskForge
