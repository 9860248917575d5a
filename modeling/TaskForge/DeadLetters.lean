/-
Dead letters and results.

Five paths lead to `DEAD_LETTERED`, all through one finalizer, and each of them
writes the job's entry as it closes the job's last attempt. So the entry and the
status are two sides of one fact, and the entry points at the attempt that ended
the job. Results are the same on the other side: one at most, of a job that
succeeded. A replay starts over with a new job and leaves the dead one alone; only under a
key that has been used does it find the job that was made then.
-/
import TaskForge.Recovery

open Relational Fallible

namespace TaskForge

/-! ## Entries and results of a phase -/

section Phase

variable {now : Int} {j : Job} {cf : CaseFile}

/-- A job that was not dead-lettered has no entry. -/
theorem Phase.dlq_nil (h : Phase now j cf) (hs : j.status ≠ .deadLettered) : cf.dlq = [] := by
  cases h with
  | waiting status waits => exact waits.dlq
  | executing past pastLeases a l run => exact run.dlq
  | ended history final room =>
    cases final with
    | succeeded status past a attempts retried last dlq results => exact dlq
    | canceled status closed dlq results => exact dlq
    | dead status => exact absurd status hs

/-- A job that was dead-lettered has one entry, for its last attempt. -/
theorem Phase.dead (h : Phase now j cf) (hs : j.status = .deadLettered) :
    ∃ past a e, cf.attempts = past ++ [a] ∧ Retried a ∧ cf.dlq = [e] ∧
      Entry j a cf.attempts.length e := by
  cases h with
  | waiting status waits => rcases status with he | he | he <;> rw [he] at hs <;> cases hs
  | executing past pastLeases a l run =>
    rcases run.status with ⟨he, -⟩ | ⟨he, -⟩ | ⟨he, -⟩ <;> rw [he] at hs <;> cases hs
  | ended history final room =>
    cases final with
    | succeeded status => rw [status] at hs; cases hs
    | canceled status => rw [status] at hs; cases hs
    | dead status past a e attempts retried last dlq entry results =>
      exact ⟨past, a, e, attempts, last, dlq, entry⟩

/-- A result is the one result of a job that succeeded, and of the attempt that
did. -/
theorem Phase.result (h : Phase now j cf) {r : ResultRow} (hr : r ∈ cf.results) :
    j.status = .succeeded ∧ cf.results = [r] ∧
      ∃ a ∈ cf.attempts, a.id = r.attemptID ∧ a.status = .succeeded := by
  cases h with
  | waiting status waits =>
    rw [waits.results] at hr
    cases hr
  | executing past pastLeases a l run =>
    rw [run.results] at hr
    cases hr
  | ended history final room =>
    cases final with
    | succeeded status past a attempts retried last dlq results =>
      rcases results with hnone | ⟨r', hone, hattempt⟩
      · rw [hnone] at hr
        cases hr
      · rw [hone, List.mem_singleton] at hr
        rw [hr]
        refine ⟨status, hone, a, ?_, hattempt.symm, last⟩
        rw [attempts]
        exact List.mem_concat_self
    | canceled status closed dlq results =>
      rw [results] at hr
      cases hr
    | dead status past a e attempts retried last dlq entry results =>
      rw [results] at hr
      cases hr

end Phase

/-! ## The tables -/

/-- Dead letters and results of the database. -/
structure ExactEnds (db : DB) : Prop where
  /-- A job is dead-lettered iff exactly one entry names it. -/
  entry : ∀ j ∈ db.jobs.rows, j.status = .deadLettered ↔
    ∃ e, (db.dlqEntries.rows.filter fun d => decide (d.jobID = j.id)) = [e]
  /-- The entry of a job names its highest attempt and says why it was the last. -/
  attempt : ∀ j ∈ db.jobs.rows, ∀ e ∈ db.dlqEntries.rows, e.jobID = j.id →
    ∃ a, Highest db j a ∧ e.terminalAttemptID = some a.id ∧
      (a.status = .failed ∨ a.status = .timedOut ∨ a.status = .abandoned) ∧
      (e.reason = .permanentFailure ↔ a.failureClass = some .permanent)
  /-- A result is of a job that succeeded, and names the attempt that did. -/
  result : ∀ r ∈ db.results.rows, ∃ j ∈ db.jobs.rows, j.id = r.jobID ∧ j.status = .succeeded ∧
    ∃ a ∈ db.attempts.rows, a.id = r.attemptID ∧ a.jobID = j.id ∧ a.status = .succeeded
  /-- A job has one result at most. -/
  result_unique : ∀ r ∈ db.results.rows, ∀ r' ∈ db.results.rows, r.jobID = r'.jobID → r = r'

section Tables

variable {w : World}

/-- Every result is of a stored job. -/
theorem Sound.job_of_result (h : Sound w) {r : ResultRow} (hr : r ∈ w.db.results.rows) :
    ∃ j ∈ w.db.jobs.rows, j.id = r.jobID := by
  have hmem : r ∈ (w.db.caseFile r.jobID).results := mem_caseFile_results.mpr ⟨hr, rfl⟩
  cases hj : (w.db.caseFile r.jobID).job with
  | none =>
    rw [((h.cases r.jobID).unborn hj).2.2.2] at hmem
    cases hmem
  | some j => exact ⟨j, caseFile_job_eq_some.mp hj⟩

theorem Sound.exactEnds (h : Sound w) : ExactEnds w.db where
  entry j hj := by
    constructor
    · intro hs
      obtain ⟨past, a, e, -, -, hdlq, -⟩ := (h.phase hj).dead hs
      exact ⟨e, hdlq⟩
    · rintro ⟨e, he⟩
      by_contra hs
      have hnil := (h.phase hj).dlq_nil hs
      rw [show (w.db.caseFile j.id).dlq = [e] from he] at hnil
      cases hnil
  attempt j hj e he hjob := by
    have hphase := h.phase hj
    have hmem : e ∈ (w.db.caseFile j.id).dlq := mem_caseFile_dlq.mpr ⟨he, hjob⟩
    have hs : j.status = .deadLettered := by
      by_contra hs
      rw [hphase.dlq_nil hs] at hmem
      cases hmem
    obtain ⟨past, a, e', hattempts, hretried, hdlq, hentry⟩ := hphase.dead hs
    rw [hdlq, List.mem_singleton] at hmem
    rw [hmem]
    exact ⟨a, highest_of_last hphase.numbered hattempts, hentry.attempt, hretried, hentry.permanent⟩
  result r hr := by
    obtain ⟨j, hj, hjid⟩ := h.job_of_result hr
    obtain ⟨hs, -, a, ha, hid, hstatus⟩ :=
      (h.phase hj).result (mem_caseFile_results.mpr ⟨hr, hjid.symm⟩)
    obtain ⟨hamem, hajob⟩ := mem_caseFile_attempts.mp ha
    exact ⟨j, hj, hjid, hs, a, hamem, hid, hajob, hstatus⟩
  result_unique r hr r' hr' hjob := by
    obtain ⟨j, hj, hjid⟩ := h.job_of_result hr
    obtain ⟨-, hone, -⟩ := (h.phase hj).result (mem_caseFile_results.mpr ⟨hr, hjid.symm⟩)
    have hmem' : r' ∈ (w.db.caseFile j.id).results :=
      mem_caseFile_results.mpr ⟨hr', hjob.symm.trans hjid.symm⟩
    rw [hone, List.mem_singleton] at hmem'
    exact hmem'.symm

end Tables

/-! ## Replay -/

/-- The replay adds the job `new` for the dead job `original`, and touches nothing
of the original's. -/
structure Replaces (db db' : DB) (original new : Job) : Prop where
  dead : original ∈ db.jobs.rows ∧ original.status = .deadLettered
  jobs : db'.jobs.rows = db.jobs.rows ++ [new]
  status : new.status = .queued
  unattempted : ∀ a ∈ db'.attempts.rows, a.jobID ≠ new.id
  same : new.queue = original.queue ∧ new.jobType = original.jobType ∧
    new.payload = original.payload ∧ new.priority = original.priority ∧
    new.maxAttempts = original.maxAttempts ∧ new.timeoutSeconds = original.timeoutSeconds ∧
    new.requiredCapabilities = original.requiredCapabilities
  attempts : db'.attempts.rows = db.attempts.rows
  leases : db'.leases.rows = db.leases.rows
  dlqEntries : db'.dlqEntries.rows = db.dlqEntries.rows

/-- The key was used before, for this job: the record of it is there. -/
def ReplayRecorded (db : DB) (scope : String) (id : UUID) (key : String) : Prop :=
  ∃ r ∈ db.dlqReplays.rows, r.scope = scope ∧ r.originalJobID = id ∧ r.idempotencyKey = key

variable {env : Env} {scope key : String} {id : UUID} {r : ReplayResult} {db : DB} {w : World}

/-- An answer that says so found a record. -/
theorem replay_recorded {db' : DB} (h : replay env scope id key db = .ok (r, db'))
    (hr : r.replayed = true) : ReplayRecorded db scope id key := by
  simp only [replay, bind_eq_ok, ite_eq_ok, pure_eq_ok, Prod.mk.injEq] at h
  obtain ⟨_, -, _, -, _, -, _, -, _, -, ⟨hany, -⟩ | ⟨-, _, -, _, -, rfl, -⟩⟩ := h
  · obtain ⟨x, hx, hkey⟩ := List.any_eq_true.mp hany
    simp only [Bool.and_eq_true, beq_iff_eq] at hkey
    exact ⟨x, hx, hkey.1.1, hkey.1.2, hkey.2⟩
  · cases hr

theorem Sound.replaces (h : Sound w) (hreplay : replay env scope id key w.db = .ok (r, db)) :
    (r.replayed = true ∧ db = w.db ∧ ReplayRecorded w.db scope id key) ∨
      (r.replayed = false ∧ ∃ original new, original.id = id ∧ r.replacement = scanJob new ∧
        Replaces w.db db original new) := by
  obtain ⟨original, hready, ⟨same, hr⟩ | ⟨rfl, happ⟩⟩ := replay_eq_ok hreplay
  · exact .inl ⟨hr, same, replay_recorded hreplay hr⟩
  · refine .inr ⟨rfl, original, replacementJob env scope original, hready.id, rfl, ?_⟩
    have hattempts : db.attempts.rows = w.db.attempts.rows := happ.attempts
    refine ⟨⟨hready.mem, hready.dead⟩, happ.jobs, rfl, ?_, ⟨rfl, rfl, rfl, rfl, rfl, rfl, rfl⟩,
      hattempts, happ.leases, ?_⟩
    · -- The new id named no job, so it named no attempt.
      intro a ha hjob
      rw [hattempts] at ha
      obtain ⟨j, hj, hjid⟩ := h.job_of_attempt ha
      have hunborn := unborn_of_insert happ rfl
      rw [← hjob, ← hjid, caseFile_job_of_mem hj] at hunborn
      cases hunborn
    · rw [happ.dlqEntries]
      exact List.append_nil _

/-- A dead job is replayed under any key that has not been used for it. -/
theorem Sound.replays (h : Sound w) {original : Job} (hmem : original ∈ w.db.jobs.rows)
    (hdead : original.status = .deadLettered) (hclock : w.clock ≤ env.clock.s₀)
    (ha : Admissible w.db ⟨env, .replay original.scope original.id key⟩)
    (hunused : ¬ ReplayRecorded w.db original.scope original.id key) :
    ∃ r db new, replay env original.scope original.id key w.db = .ok (r, db) ∧
      r.replayed = false ∧ r.replacement = scanJob new ∧ Replaces w.db db original new := by
  obtain ⟨e, he⟩ := (h.exactEnds.entry original hmem).mp hdead
  have hentry : e ∈ w.db.dlqEntries.rows.filter fun d => decide (d.jobID = original.id) := by
    rw [he]
    exact List.mem_singleton.mpr rfl
  obtain ⟨hemem, hejob⟩ := List.mem_filter.mp hentry
  have hready : ReplayReady original.scope original.id w.db original :=
    ⟨hmem, rfl, rfl, hdead, ⟨e, hemem, of_decide_eq_true hejob⟩, h.queues original hmem⟩
  obtain ⟨ans, db, hrun⟩ := Call.commits h hclock ha rfl rfl fun f hf =>
    replay_cause hready (fun r hr hkey => hunused ⟨r, hr, hkey⟩) (answering_eq_error.mp hf)
  obtain ⟨r, hok, -⟩ := answering_eq_ok.mp hrun
  rcases h.replaces hok with ⟨-, -, hrecorded⟩ | ⟨hr, original', new, hid, hnew, hreplaces⟩
  · exact absurd hrecorded hunused
  · obtain rfl : original' = original := w.db.job_eq_of_id hreplaces.dead.1 hmem hid
    exact ⟨r, db, new, hok, hr, hnew, hreplaces⟩

/-- In every reachable state dead letters and results are exact. A replay that commits
adds one new job, or finds the one it made before under its key; and a replay of a dead
job under a key that has not been used commits, and adds the job. -/
theorem dead_letters_exact {w : World} (h : Reachable w) :
    ExactEnds w.db ∧
      (∀ env scope id key r w', Step w ⟨⟨env, .replay scope id key⟩, .ok (.replayed r)⟩ w' →
        (r.replayed = true ∧ w'.db = w.db ∧ ReplayRecorded w.db scope id key) ∨
          (r.replayed = false ∧ ∃ original new, original.id = id ∧ r.replacement = scanJob new ∧
            Replaces w.db w'.db original new)) ∧
      ∀ env key, ∀ original ∈ w.db.jobs.rows, original.status = .deadLettered →
        w.clock ≤ env.clock.s₀ →
        Admissible w.db ⟨env, .replay original.scope original.id key⟩ →
        ¬ ReplayRecorded w.db original.scope original.id key →
        ∃ r w' new,
          Step w ⟨⟨env, .replay original.scope original.id key⟩, .ok (.replayed r)⟩ w' ∧
            r.replayed = false ∧ r.replacement = scanJob new ∧ Replaces w.db w'.db original new := by
  refine ⟨h.sound.exactEnds, ?_, ?_⟩
  · intro env scope id key r w' hstep
    obtain ⟨_, hr, hans⟩ := answering_eq_ok.mp (hstep.ran rfl rfl)
    cases hans
    exact h.sound.replaces hr
  · intro env key original hmem hdead hclock ha hunused
    obtain ⟨r, db, new, hok, hr, hnew, hreplaces⟩ :=
      h.sound.replays hmem hdead hclock ha hunused
    exact ⟨r, ⟨db, env.clock.s₂⟩, new, .committed hclock (answering_eq_ok.mpr ⟨r, hok, rfl⟩), hr,
      hnew, hreplaces⟩

/-- The sample attempt fails for good. -/
def sampleDead : List Request :=
  sampleStart ++ [⟨envAt 5 30 0, .fail "tenant" { sampleReport with class_ := .permanent }⟩]

theorem dead_letters_exact_sample :
    (quiet.exec sampleDead).2.db.dlqEntries.rows.map
        (fun e => (e.jobID, e.terminalAttemptID, e.reason)) = [(2, some 4, .permanentFailure)] ∧
      ExactEnds (quiet.exec sampleDead).2.db ∧
      ∃ original ∈ (quiet.exec sampleDead).2.db.jobs.rows, original.id = 2 ∧ ∃ r w' new,
        Step (quiet.exec sampleDead).2
            ⟨⟨envAt 6 31 32, .replay original.scope original.id "again"⟩, .ok (.replayed r)⟩ w' ∧
          r.replayed = false ∧ r.replacement = scanJob new ∧
          Replaces (quiet.exec sampleDead).2.db w'.db original new := by
  obtain ⟨hends, -, hreplay⟩ := dead_letters_exact (quiet_reachable
    (by decide : Clocked 0 sampleDead))
  obtain ⟨hclock, ⟨original, hmem, hid, hdead⟩, hfresh, hnone⟩ :
      (quiet.exec sampleDead).2.clock ≤ 6 ∧
      (∃ j ∈ (quiet.exec sampleDead).2.db.jobs.rows, j.id = 2 ∧ j.status = .deadLettered) ∧
      Fresh (envAt 6 31 32) (quiet.exec sampleDead).2.db ∧
      (quiet.exec sampleDead).2.db.dlqReplays.rows = [] := by decide +kernel
  have hkey : (validateIdempotencyKey "again").isEmpty = true := by decide +kernel
  have hduration : 1000 ≤ (envAt 6 31 32).leaseDuration := by decide
  refine ⟨by decide +kernel, hends, original, hmem, hid, hreplay (envAt 6 31 32) "again" original
    hmem hdead hclock ⟨hfresh, hduration, hkey⟩ ?_⟩
  rintro ⟨r, hr, -⟩
  rw [hnone] at hr
  cases hr

end TaskForge
