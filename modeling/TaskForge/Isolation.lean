/-
Tenants do not meet.

Two halves. A call under a scope leaves every row of every other scope as it is,
whatever ids the caller chose: each transaction finds its rows by id and scope
together, and writes rows of that scope only. One statement does not name the
scope: the registration of a worker fences the worker's current session by the
worker's id, and stays in the scope because a session's scope is its worker's
(`worker_sessions_worker_fkey`).

And a read under a scope shows rows of that scope only, so that it answers the same
in two states that agree on them. The listings that join by id alone show what the
ids lead to; the ties between denormalised scopes, which every transaction keeps,
say that this is the same tenant's.
-/
import TaskForge.DeadLetters
import TaskForge.Permanence
import TaskForge.Reads

open Relational Fallible

namespace TaskForge

/-- The scope a call is made under. The scheduler's and the reconciler's calls have
none. -/
def Call.scope : Call → Option String
  | .submit scope _ _ _ => some scope
  | .replay scope _ _ => some scope
  | .requestCancel scope _ => some scope
  | .register scope _ => some scope
  | .heartbeat scope _ => some scope
  | .claim scope _ => some scope
  | .start scope _ => some scope
  | .renewLease scope _ => some scope
  | .succeed scope _ _ => some scope
  | .fail scope _ => some scope
  | .acknowledgeCancellation scope _ => some scope
  | .promoteDueJob _ | .renotifyStrandedJob _ _ | .reconcileDueTimeout _ _
  | .reconcileExpiredLease _ _ | .markSessionStale _ _ => none

/-- The two databases hold the same jobs, attempts, leases, workers, sessions,
results, dead letters and replays among those whose scope satisfies `p`. -/
structure SameRows (p : String → Prop) (db db' : DB) : Prop where
  jobs : SameOn (fun j => p j.scope) db.jobs.rows db'.jobs.rows
  attempts : SameOn (fun a => p a.scope) db.attempts.rows db'.attempts.rows
  leases : SameOn (fun l => p l.scope) db.leases.rows db'.leases.rows
  workers : SameOn (fun x => p x.scope) db.workers.rows db'.workers.rows
  sessions : SameOn (fun s => p s.scope) db.sessions.rows db'.sessions.rows
  results : SameOn (fun r => p r.scope) db.results.rows db'.results.rows
  dlqEntries : SameOn (fun d => p d.scope) db.dlqEntries.rows db'.dlqEntries.rows
  dlqReplays : SameOn (fun r => p r.scope) db.dlqReplays.rows db'.dlqReplays.rows

theorem SameRows.refl (p : String → Prop) (db : DB) : SameRows p db db :=
  ⟨.refl _ _, .refl _ _, .refl _ _, .refl _ _, .refl _ _, .refl _ _, .refl _ _, .refl _ _⟩

/-- The rows can be compared table by table. -/
theorem SameRows.of_filters {p : String → Prop} [DecidablePred p] {db db' : DB}
    (h : db'.jobs.rows.filter (fun j => decide (p j.scope))
          = db.jobs.rows.filter (fun j => decide (p j.scope)) ∧
        db'.attempts.rows.filter (fun a => decide (p a.scope))
          = db.attempts.rows.filter (fun a => decide (p a.scope)) ∧
        db'.leases.rows.filter (fun l => decide (p l.scope))
          = db.leases.rows.filter (fun l => decide (p l.scope)) ∧
        db'.workers.rows.filter (fun x => decide (p x.scope))
          = db.workers.rows.filter (fun x => decide (p x.scope)) ∧
        db'.sessions.rows.filter (fun s => decide (p s.scope))
          = db.sessions.rows.filter (fun s => decide (p s.scope)) ∧
        db'.results.rows.filter (fun r => decide (p r.scope))
          = db.results.rows.filter (fun r => decide (p r.scope)) ∧
        db'.dlqEntries.rows.filter (fun d => decide (p d.scope))
          = db.dlqEntries.rows.filter (fun d => decide (p d.scope)) ∧
        db'.dlqReplays.rows.filter (fun r => decide (p r.scope))
          = db.dlqReplays.rows.filter (fun r => decide (p r.scope))) : SameRows p db db' := by
  obtain ⟨hjobs, hattempts, hleases, hworkers, hsessions, hresults, hentries, hreplays⟩ := h
  exact ⟨.of_filter_eq hjobs, .of_filter_eq hattempts, .of_filter_eq hleases,
    .of_filter_eq hworkers, .of_filter_eq hsessions, .of_filter_eq hresults,
    .of_filter_eq hentries, .of_filter_eq hreplays⟩

/-- `worker_sessions_worker_fkey`: a session is of a worker of its own scope. -/
def SessionsOwned (db : DB) : Prop :=
  ∀ s ∈ db.sessions.rows, ∃ x ∈ db.workers.rows, x.id = s.workerID ∧ x.scope = s.scope

/-! ## What a call writes -/

/-- Every row written is of one scope, and so was the row it replaces. -/
structure Writes.Under (w : Writes) (db : DB) (scope : String) : Prop where
  job : w.job.Within Job.scope scope db.jobs.rows
  attempt : w.attempt.Within JobAttempt.scope scope db.attempts.rows
  lease : w.lease.Within Lease.scope scope db.leases.rows
  dlq : ∀ d ∈ w.dlq, d.scope = scope
  results : ∀ r ∈ w.results, r.scope = scope
  replays : ∀ r ∈ w.replays, r.scope = scope

section Writes

variable {env : Env} {db db' : DB} {scope : String}

theorem Writes.Applied.sameRows {w : Writes} (h : w.Applied db db') (hw : w.Under db scope) :
    SameRows (· ≠ scope) db db' where
  jobs := by
    rw [h.jobs]
    exact RowWrite.sameOn hw.job
  attempts := by
    rw [h.attempts]
    exact RowWrite.sameOn hw.attempt
  leases := by
    rw [h.leases]
    exact RowWrite.sameOn hw.lease
  workers := by
    rw [h.workers]
    exact .refl _ _
  sessions := by
    rw [h.sessions]
    exact .refl _ _
  results := by
    rw [h.results]
    exact .append _ fun r hr hne => hne (hw.results r hr)
  dlqEntries := by
    rw [h.dlqEntries]
    exact .append _ fun d hd hne => hne (hw.dlq d hd)
  dlqReplays := by
    rw [h.dlqReplays]
    exact .append _ fun r hr hne => hne (hw.replays r hr)

/-- **The writes of a call under a scope are under it.** The call names the job, the
attempt and the lease; the scope is in the condition that found them. -/
theorem Performs.under {call : Call} {id : UUID} {w : Writes} (h : Performs env db call id w)
    (hscope : call.scope = some scope) : w.Under db scope := by
  cases h with
  | submit sc key req trace queue =>
    cases hscope
    constructor <;> simp [submitWrites, RowWrite.Within, submittedJob]
  | replay sc originalJobID key original ready =>
    cases hscope
    constructor <;> simp [replayWrites, RowWrite.Within, replacementJob]
  | cancel sc j target mem scope_eq cancelable =>
    cases hscope
    constructor <;> simp [cancelWrites, RowWrite.Within, cancelledJob, mem, scope_eq]
  | claim sc req s j ready =>
    cases hscope
    obtain ⟨⟨hj, -⟩, -⟩ := isEligible_eq_true.mp ready.eligible
    constructor <;> simp [claimWrites, RowWrite.Within, leasedJob, claimedAttempt, claimedLease,
      ready.job_mem, hj]
  | start sc fence s j a l binding live job attempt =>
    cases hscope
    constructor <;> simp [startWrites, RowWrite.Within, runningJob, startedAttempt,
      binding.job_mem, binding.job_scope, binding.attempt_mem, binding.attempt_scope]
  | renew sc req s j a l binding ready =>
    cases hscope
    constructor <;> simp [renewWrites, RowWrite.Within, renewedLease, binding.lease_mem,
      binding.lease_scope]
  | succeed sc fence result s j a l binding ready =>
    cases hscope
    constructor <;> simp [succeedWrites, RowWrite.Within, succeededJob, succeededAttempt,
      closedLease, resultRow, binding.job_mem, binding.job_scope, binding.attempt_mem,
      binding.attempt_scope, binding.lease_mem, binding.lease_scope]
  | fail sc report s j a l d binding ready =>
    cases hscope
    refine ⟨⟨binding.job_mem, binding.job_scope, ?_⟩,
      ⟨binding.attempt_mem, binding.attempt_scope, binding.attempt_scope⟩,
      ⟨binding.lease_mem, binding.lease_scope, binding.lease_scope⟩, ?_, ?_, ?_⟩
    · rw [finalizedJob_scope]
      exact binding.job_scope
    · intro e he
      obtain ⟨reason, -, rfl⟩ := finalize_entry_mem he
      rfl
    · simp [finalizeWrites]
    · simp [finalizeWrites]
  | acknowledge sc ack s j a l binding ready =>
    cases hscope
    constructor <;> simp [cancellationWrites, RowWrite.Within, canceledJob, canceledAttempt,
      closedLease, binding.job_mem, binding.job_scope, binding.attempt_mem,
      binding.attempt_scope, binding.lease_mem, binding.lease_scope]
  | promote | renotify | timeOut | expire => cases hscope

theorem SessionsOnly.sameRows {p : String → Prop} (h : SessionsOnly db db')
    (hworkers : SameOn (fun x => p x.scope) db.workers.rows db'.workers.rows)
    (hsessions : SameOn (fun s => p s.scope) db.sessions.rows db'.sessions.rows) :
    SameRows p db db' := by
  refine ⟨?_, ?_, ?_, hworkers, hsessions, ?_, ?_, ?_⟩
  · rw [h.jobs]; exact .refl _ _
  · rw [h.attempts]; exact .refl _ _
  · rw [h.leases]; exact .refl _ _
  · rw [h.results]; exact .refl _ _
  · rw [h.dlqEntries]; exact .refl _ _
  · rw [h.dlqReplays]; exact .refl _ _

/-- A registration fences sessions of its own scope only: the worker it found is in
the scope, and the worker's sessions are where the worker is. -/
theorem RegisteredSessions.sameOn {reg : Registration} {wid : UUID}
    (h : RegisteredSessions env scope reg wid db db') (howned : SessionsOwned db)
    (hworkers : Upserted scope wid db.workers.rows db'.workers.rows) :
    SameOn (fun s => s.scope ≠ scope) db.sessions.rows db'.sessions.rows := by
  have hapart : ∀ s ∈ db.sessions.rows, s.scope ≠ scope → s.workerID ≠ wid := by
    intro s hs hscope hwid
    obtain ⟨x, hx, hxid, hxscope⟩ := howned s hs
    obtain ⟨y, hy, hyid, hyscope⟩ := hworkers.kept x hx
    obtain ⟨z, hz, hzid, hzscope⟩ := hworkers.named
    have hyz : y = z := db'.worker_eq_of_id hy hz (by rw [hyid, hxid, hwid, hzid])
    exact hscope (by rw [← hxscope, ← hyscope, hyz, hzscope])
  cases h with
  | replayed s mem id worker healthy same =>
    rw [same]
    exact .refl _ _
  | fresh rows =>
    intro s hscope
    rw [rows, List.mem_append, List.mem_map, List.mem_singleton]
    constructor
    · rintro (⟨t, ht, rfl⟩ | rfl)
      · by_cases hfence : (t.workerID == wid && isCurrentSessionStatus t.status) = true
        · rw [if_pos hfence] at hscope
          rw [Bool.and_eq_true, beq_iff_eq] at hfence
          exact absurd hfence.1 (hapart t ht hscope)
        · rw [if_neg hfence]
          exact ht
      · exact absurd rfl hscope
    · intro hs
      refine .inl ⟨s, hs, if_neg ?_⟩
      rw [Bool.and_eq_true, beq_iff_eq]
      exact fun hfence => hapart s hs hscope hfence.1

/-- **A call that commits under a scope leaves the others alone.** -/
theorem Commit.sameRows {call : Call} (h : Commit env db db' call)
    (hscope : call.scope = some scope) (howned : SessionsOwned db) :
    SameRows (· ≠ scope) db db' := by
  cases h with
  | unchanged call same =>
    rw [same]
    exact .refl _ _
  | registered sc registration reg wid valid only workers sessions =>
    cases hscope
    exact only.sameRows workers.others (sessions.sameOn howned workers)
  | beat sc req s session scope_eq healthy moved =>
    cases hscope
    refine moved.only.sameRows ?_ ?_
    · rw [moved.workers]
      exact .refl _ _
    · rw [moved.rows]
      exact RowWrite.sameOn (w := .replace s (beatSession env.clock.s₀ s))
        ⟨moved.mem, scope_eq, scope_eq⟩
  | staled s staleAfter stale moved => cases hscope
  | wrote call id w performs applied => exact applied.sameRows (performs.under hscope)

/-- Whatever comes of it: a call that is refused leaves everything alone. -/
theorem World.step_sameRows (w : World) {req : Request} (hscope : req.call.scope = some scope)
    (howned : SessionsOwned w.db) : SameRows (· ≠ scope) w.db (w.step req).2.db := by
  unfold World.step
  cases hrun : req.call.run req.env w.db with
  | ok r => exact (Call.commit hrun).sameRows hscope howned
  | error f => exact .refl _ _

end Writes

/-! ## Ties between scopes -/

/-- `dlq_entries_job_fkey` and `dlq_replays_original_fkey`: a dead letter and a replay
are of a stored job, in its scope. -/
structure Lineage (db : DB) : Prop where
  entry : ∀ d ∈ db.dlqEntries.rows, ∃ j ∈ db.jobs.rows, j.id = d.jobID ∧ j.scope = d.scope
  replay : ∀ r ∈ db.dlqReplays.rows, ∃ j ∈ db.jobs.rows, j.id = r.originalJobID ∧ j.scope = r.scope

section Ties

variable {env : Env} {db db' : DB} {w w' : World} {l : Label}

/-- The dead letter a move writes is of the move's job, under its scope. -/
theorem Lawful.entry_job {id : UUID} {writes : Writes} (h : Lawful env db id writes) :
    ∀ d ∈ writes.dlq, ∃ j ∈ db.jobs.rows, j.id = d.jobID ∧ j.scope = d.scope := by
  cases h with
  | finalize scope o d j a l holds scope_eq ends decision identity =>
    intro e he
    obtain ⟨reason, -, rfl⟩ := finalize_entry_mem he
    exact ⟨j, (caseFile_job_eq_some.mp holds.job).1, rfl, scope_eq⟩
  | _ => simp [submitWrites, replayWrites, cancelWrites, promoteWrites, renotifyWrites,
      claimWrites, startWrites, renewWrites, succeedWrites, cancellationWrites]

/-- A replay is of a stored job, under its scope. -/
theorem Lawful.replay_job {id : UUID} {writes : Writes} (h : Lawful env db id writes) :
    ∀ r ∈ writes.replays, ∃ j ∈ db.jobs.rows, j.id = r.originalJobID ∧ j.scope = r.scope := by
  cases h with
  | replay scope key original unborn new ready =>
    intro r hr
    rw [List.mem_singleton.mp hr]
    exact ⟨original, ready.mem, rfl, ready.scope_eq⟩
  | _ => simp [submitWrites, cancelWrites, promoteWrites, renotifyWrites, claimWrites,
      startWrites, renewWrites, succeedWrites, finalizeWrites, cancellationWrites]

/-- What names a job by id and scope names it after the step, too. -/
theorem Traceable.job_named (h : Traceable db db') {id : UUID} {scope : String}
    (hj : ∃ j ∈ db.jobs.rows, j.id = id ∧ j.scope = scope) :
    ∃ j ∈ db'.jobs.rows, j.id = id ∧ j.scope = scope := by
  obtain ⟨j, hmem, hid, hscope⟩ := hj
  obtain ⟨j', hmem', hdef⟩ := h.jobs j hmem
  simp only [Job.definition, Prod.mk.injEq] at hdef
  exact ⟨j', hmem', hdef.1.trans hid, hdef.2.1.trans hscope⟩

theorem Step.lineage (hs : Step w l w') (h : Lineage w.db) : Lineage w'.db := by
  have htrace := hs.traceable
  cases hs.effect with
  | unchanged same => exact same ▸ h
  | sessions only kept workers owned =>
    refine ⟨?_, ?_⟩
    · rw [only.dlqEntries]
      exact fun d hd => htrace.job_named (h.entry d hd)
    · rw [only.dlqReplays]
      exact fun r hr => htrace.job_named (h.replay r hr)
  | move id writes lawful applied =>
    refine ⟨?_, ?_⟩
    · intro d hd
      rw [applied.dlqEntries, List.mem_append] at hd
      rcases hd with hold | hnew
      · exact htrace.job_named (h.entry d hold)
      · exact htrace.job_named (lawful.entry_job d hnew)
    · intro r hr
      rw [applied.dlqReplays, List.mem_append] at hr
      rcases hr with hold | hnew
      · exact htrace.job_named (h.replay r hold)
      · exact htrace.job_named (lawful.replay_job r hnew)

theorem Reachable.lineage (h : Reachable w) : Lineage w.db := by
  obtain ⟨w₀, trace, hinit, hrun⟩ := h
  refine hrun.invariant (P := fun v => Lineage v.db) (fun hI hstep => hstep.lineage hI) ?_
  exact ⟨by simp [hinit.dlqEntries], by simp [hinit.dlqReplays]⟩

end Ties

/-- What the listings rely on: the rows an id leads to are of the scope of the row
that holds the id. -/
structure Tied (db : DB) : Prop where
  session : ∀ x ∈ db.workers.rows, ∀ s ∈ db.sessions.rows, s.workerID = x.id → s.scope = x.scope
  lease : ∀ x ∈ db.workers.rows, ∀ l ∈ db.leases.rows, l.workerID = x.id → l.scope = x.scope
  job : ∀ d ∈ db.dlqEntries.rows, ∀ j ∈ db.jobs.rows, j.id = d.jobID → j.scope = d.scope
  attempt : ∀ d ∈ db.dlqEntries.rows, ∀ a ∈ db.attempts.rows, d.terminalAttemptID = some a.id →
    a.scope = d.scope
  replay : ∀ d ∈ db.dlqEntries.rows, ∀ r ∈ db.dlqReplays.rows, r.originalJobID = d.jobID →
    r.scope = d.scope

/-- **Every reachable state is tied.** -/
theorem Reachable.tied {w : World} (h : Reachable w) : Tied w.db := by
  have hsound := h.sound
  have hline := h.lineage
  have hsession : ∀ x ∈ w.db.workers.rows, ∀ s ∈ w.db.sessions.rows, s.workerID = x.id →
      s.scope = x.scope := by
    intro x hx s hs hid
    obtain ⟨y, hy, hyid, hyscope⟩ := hsound.workers s hs
    rw [w.db.worker_eq_of_id hx hy (by rw [hyid, hid]), hyscope]
  have hjob : ∀ d ∈ w.db.dlqEntries.rows, ∀ j ∈ w.db.jobs.rows, j.id = d.jobID →
      j.scope = d.scope := by
    intro d hd j hj hid
    obtain ⟨k, hk, hkid, hkscope⟩ := hline.entry d hd
    rw [w.db.job_eq_of_id hj hk (hid.trans hkid.symm), hkscope]
  refine ⟨hsession, ?_, hjob, ?_, ?_⟩
  · -- A lease is of a run, the run is of a session, and the session is of the worker.
    intro x hx m hm hid
    obtain ⟨j, hj, a, ha, hbound⟩ := hsound.run_of_lease hm
    obtain ⟨s, hs, -, hworker, hscope⟩ := hsound.bindings a ha
    have hsx := hsession x hx s hs (by rw [hworker, ← hbound.worker, hid])
    rw [hbound.lease_scope, ← hbound.attempt_scope, ← hscope, hsx]
  · intro d hd a ha hterminal
    obtain ⟨j, hj, hjid, hjscope⟩ := hline.entry d hd
    obtain ⟨b, hb, hbid, -⟩ := hsound.exactEnds.attempt j hj d hd hjid.symm
    have hab : a = b := by
      refine w.db.attempt_eq_of_id ha hb.mem ?_
      rw [hterminal, Option.some.injEq] at hbid
      exact hbid
    have hmem : a ∈ (w.db.caseFile j.id).attempts :=
      mem_caseFile_attempts.mpr ⟨ha, by rw [hab]; exact hb.job⟩
    obtain ⟨m, -, hbound, -⟩ := Ledger.exists_right (hsound.phase hj).ledger hmem
    rw [hbound.attempt_scope, hjscope]
  · intro d hd r hr hid
    obtain ⟨j, hj, hjid, hjscope⟩ := hline.replay r hr
    rw [← hjscope, hjob d hd j hj (hjid.trans hid)]

/-! ## What a read shows -/

section Reads

variable {db db' : DB} {scope : String}

/-- A condition that asks for the scope selects the same rows. -/
theorem SameRows.jobs_where (h : SameRows (· = scope) db db') {q : Job → Bool}
    (hq : ∀ j, q j = true → j.scope = scope) :
    SameOn (fun j => q j = true) db.jobs.rows db'.jobs.rows :=
  h.jobs.restrict (fun j _ hj => hq j hj) fun j _ hj => hq j hj

theorem SameRows.jobInScope_eq (h : SameRows (· = scope) db db') (id : UUID) :
    jobInScope db' scope id = jobInScope db scope id := by
  refine SameOn.find?_eq (h.jobs_where fun j hj => ?_) fun j k hj hk => ?_
  · rw [Bool.and_eq_true, beq_iff_eq, beq_iff_eq] at hj
    exact hj.2
  · rw [Bool.and_eq_true, beq_iff_eq, beq_iff_eq] at hj hk
    exact sameKey_eq_true.mpr ⟨id, congrArg some hj.1, congrArg some hk.1⟩

theorem SameRows.listJobs_eq (h : SameRows (· = scope) db db') (codec : Codec) (filter : JobFilter)
    (cursor : String) (limit : Int) :
    listJobs codec db' scope filter cursor limit = listJobs codec db scope filter cursor limit := by
  have hlist : ∀ after, listing newestFirst Job.keyset (isListed scope filter) after db'.jobs.rows
      = listing newestFirst Job.keyset (isListed scope filter) after db.jobs.rows := by
    intro after
    refine SameOn.listing_eq (h.jobs_where fun j hj => ?_) fun j k _ _ hkey => ?_
    · simp only [isListed, Bool.and_eq_true, beq_iff_eq] at hj
      exact hj.1.1
    · exact sameKey_eq_true.mpr ⟨j.id, rfl, congrArg some (Prod.mk.inj hkey).2.symm⟩
  simp only [listJobs, hlist]

/-- The attempts of a job of the scope. -/
theorem SameRows.attempts_of (h : SameRows (· = scope) db db') {j : Job} (hj : j.scope = scope) :
    SameOn (fun a => (a.jobID == j.id && a.scope == j.scope) = true) db.attempts.rows
      db'.attempts.rows := by
  refine h.attempts.restrict ?_ ?_ <;> intro a _ ha <;>
    rw [Bool.and_eq_true, beq_iff_eq, beq_iff_eq] at ha <;> exact ha.2.trans hj

/-- The worker of an attempt of the scope. -/
theorem SameRows.worker_of (h : SameRows (· = scope) db db') {a : JobAttempt}
    (ha : a.scope = scope) :
    (db'.workers.rows.find? fun x => x.id == a.workerID && x.scope == a.scope)
      = db.workers.rows.find? fun x => x.id == a.workerID && x.scope == a.scope := by
  refine SameOn.find?_eq ?_ fun x y hx hy => ?_
  · refine h.workers.restrict ?_ ?_ <;> intro x _ hx <;>
      rw [Bool.and_eq_true, beq_iff_eq, beq_iff_eq] at hx <;> exact hx.2.trans ha
  · rw [Bool.and_eq_true, beq_iff_eq, beq_iff_eq] at hx hy
    refine Bool.or_eq_true_iff.mpr (.inl (sameKey_eq_true.mpr ⟨a.workerID, ?_, ?_⟩))
    · exact congrArg some hx.1
    · exact congrArg some hy.1

/-- An attempt number tells the attempts of a job apart. -/
theorem attempt_eq_of_number {j : Job} {a b : JobAttempt}
    (ha : a ∈ db.attempts.rows.filter fun a => a.jobID == j.id && a.scope == j.scope)
    (hb : b ∈ db.attempts.rows.filter fun a => a.jobID == j.id && a.scope == j.scope)
    (h : a.attemptNumber = b.attemptNumber) : a = b := by
  rw [List.mem_filter, Bool.and_eq_true, beq_iff_eq] at ha hb
  have hkey : sameKey JobAttempt.numberKey a b = true := by
    refine sameKey_eq_true.mpr ⟨(a.jobID, a.attemptNumber), rfl, ?_⟩
    rw [JobAttempt.numberKey, hb.2.1, ha.2.1, h]
  refine db.attempts.eq_of_clash ha.1 hb.1 ?_
  simp only [jobAttempts, hkey, Bool.or_true, Bool.true_or]

theorem SameRows.listAttempts_eq (h : SameRows (· = scope) db db') (jobID : UUID) :
    listAttempts db' scope jobID = listAttempts db scope jobID := by
  unfold listAttempts
  rw [show (db'.jobs.rows.find? fun j => j.id == jobID && j.scope == scope)
    = db.jobs.rows.find? fun j => j.id == jobID && j.scope == scope from h.jobInScope_eq jobID]
  cases hfind : db.jobs.rows.find? fun j => j.id == jobID && j.scope == scope with
  | none => rfl
  | some j =>
    have hj := List.find?_some hfind
    rw [Bool.and_eq_true, beq_iff_eq, beq_iff_eq] at hj
    have horder : orderBy (SortOrder.asc ℕ) JobAttempt.attemptNumber
          (db'.attempts.rows.filter fun a => a.jobID == j.id && a.scope == j.scope)
        = orderBy (SortOrder.asc ℕ) JobAttempt.attemptNumber
          (db.attempts.rows.filter fun a => a.jobID == j.id && a.scope == j.scope) :=
      orderBy_congr (h.attempts_of hj.2).filter_perm fun a ha b hb => attempt_eq_of_number ha hb
    simp only [orFail, Option.elim_some, ok_bind, horder]
    refine congrArg Except.ok (List.map_congr_left fun a ha => ?_)
    have ha := (List.mem_filter.mp ((orderBy_perm _ _ _).mem_iff.mp ha)).2
    rw [Bool.and_eq_true, beq_iff_eq, beq_iff_eq] at ha
    rw [h.worker_of (ha.2.trans hj.2)]

/-! The two listings below find rows by id alone. In tied states those are rows of
the scope. -/

/-- A dead letter of the scope is shown alike. -/
theorem SameRows.joinEntry_eq (h : SameRows (· = scope) db db') (ht : Tied db) (ht' : Tied db')
    {d : DLQEntry} (hd : d ∈ db.dlqEntries.rows) (hscope : d.scope = scope) :
    joinEntry db' d = joinEntry db d := by
  have hd' : d ∈ db'.dlqEntries.rows := (h.dlqEntries d hscope).mpr hd
  have hjob : (db'.jobs.rows.find? fun j => j.id == d.jobID)
      = db.jobs.rows.find? fun j => j.id == d.jobID := by
    refine SameOn.find?_eq (h.jobs.restrict ?_ ?_) fun j k hj hk => ?_
    · exact fun j hj hid => (ht.job d hd j hj (beq_iff_eq.mp hid)).trans hscope
    · exact fun j hj hid => (ht'.job d hd' j hj (beq_iff_eq.mp hid)).trans hscope
    · exact sameKey_eq_true.mpr
        ⟨d.jobID, congrArg some (beq_iff_eq.mp hj), congrArg some (beq_iff_eq.mp hk)⟩
  have hattempt : (db'.attempts.rows.find? fun a => d.terminalAttemptID == some a.id)
      = db.attempts.rows.find? fun a => d.terminalAttemptID == some a.id := by
    refine SameOn.find?_eq (h.attempts.restrict ?_ ?_) fun a b ha hb => ?_
    · exact fun a ha hid => (ht.attempt d hd a ha (beq_iff_eq.mp hid)).trans hscope
    · exact fun a ha hid => (ht'.attempt d hd' a ha (beq_iff_eq.mp hid)).trans hscope
    · have hkey : sameKey JobAttempt.idKey a b = true :=
        sameKey_eq_true.mpr ⟨a.id, rfl, (beq_iff_eq.mp hb).symm.trans (beq_iff_eq.mp ha)⟩
      simp only [jobAttempts, hkey, Bool.true_or]
  have hreplays : (db'.dlqReplays.count fun r => r.originalJobID == d.jobID)
      = db.dlqReplays.count fun r => r.originalJobID == d.jobID := by
    refine SameOn.countP_eq (h.dlqReplays.restrict ?_ ?_)
    · exact fun r hr hid => (ht.replay d hd r hr (beq_iff_eq.mp hid)).trans hscope
    · exact fun r hr hid => (ht'.replay d hd' r hr (beq_iff_eq.mp hid)).trans hscope
  unfold joinEntry
  rw [hjob, hattempt, hreplays]

theorem SameRows.listDLQ_eq (h : SameRows (· = scope) db db') (ht : Tied db) (ht' : Tied db')
    (codec : Codec) (cursor : String) (limit : Int) :
    listDLQ codec db' scope cursor limit = listDLQ codec db scope cursor limit := by
  have hlist : ∀ after,
      (listing newestFirst DLQEntry.keyset (fun d => d.scope == scope) after
        db'.dlqEntries.rows).filterMap (joinEntry db')
      = (listing newestFirst DLQEntry.keyset (fun d => d.scope == scope) after
        db.dlqEntries.rows).filterMap (joinEntry db) := by
    intro after
    rw [SameOn.listing_eq (t := db.dlqEntries)
      (h.dlqEntries.restrict (fun d _ hd => beq_iff_eq.mp hd) fun d _ hd => beq_iff_eq.mp hd)]
    · refine List.filterMap_congr fun d hd => ?_
      obtain ⟨hmem, hscope, -⟩ := mem_listing.mp hd
      exact h.joinEntry_eq ht ht' hmem (beq_iff_eq.mp hscope)
    · intro d e _ _ hkey
      refine Bool.or_eq_true_iff.mpr (.inl (sameKey_eq_true.mpr ⟨d.id, rfl, ?_⟩))
      exact congrArg some (Prod.mk.inj hkey).2.symm
  simp only [listDLQ, hlist]

/-- A worker of the scope is shown alike. -/
theorem SameRows.joinSession_eq (h : SameRows (· = scope) db db') (ht : Tied db) (ht' : Tied db')
    (now : Int) {x : Worker} (hx : x ∈ db.workers.rows) (hscope : x.scope = scope) :
    joinSession now db' x = joinSession now db x := by
  have hx' : x ∈ db'.workers.rows := (h.workers x hscope).mpr hx
  have hsessions : SameOn (fun s => (s.workerID == x.id) = true) db.sessions.rows
      db'.sessions.rows := by
    refine h.sessions.restrict ?_ ?_
    · exact fun s hs hid => (ht.session x hx s hs (beq_iff_eq.mp hid)).trans hscope
    · exact fun s hs hid => (ht'.session x hx' s hs (beq_iff_eq.mp hid)).trans hscope
  have hlatest : orderBy newestFirst WorkerSession.keyset
        (db'.sessions.rows.filter fun s => s.workerID == x.id)
      = orderBy newestFirst WorkerSession.keyset
        (db.sessions.rows.filter fun s => s.workerID == x.id) := by
    refine orderBy_congr hsessions.filter_perm fun s hs t ht hkey => ?_
    exact db.session_eq_of_id (List.mem_filter.mp hs).1 (List.mem_filter.mp ht).1
      (Prod.mk.inj hkey).2
  have hleases : (db'.leases.count fun l => l.workerID == x.id && l.status == .active)
      = db.leases.count fun l => l.workerID == x.id && l.status == .active := by
    refine SameOn.countP_eq (h.leases.restrict ?_ ?_) <;> intro l hl hq <;>
      rw [Bool.and_eq_true, beq_iff_eq] at hq
    · exact (ht.lease x hx l hl hq.1).trans hscope
    · exact (ht'.lease x hx' l hl hq.1).trans hscope
  unfold joinSession
  rw [hlatest, hleases]

theorem SameRows.listWorkers_eq (h : SameRows (· = scope) db db') (ht : Tied db) (ht' : Tied db')
    (codec : Codec) (collation : SortOrder String) (now : Int) (cursor : String) (limit : Int) :
    listWorkers codec collation now db' scope cursor limit
      = listWorkers codec collation now db scope cursor limit := by
  have hlist : ∀ after,
      (listing collation Worker.name (fun x => x.scope == scope) after
        db'.workers.rows).filterMap (joinSession now db')
      = (listing collation Worker.name (fun x => x.scope == scope) after
        db.workers.rows).filterMap (joinSession now db) := by
    intro after
    rw [SameOn.listing_eq (t := db.workers)
      (h.workers.restrict (fun x _ hx => beq_iff_eq.mp hx) fun x _ hx => beq_iff_eq.mp hx)]
    · refine List.filterMap_congr fun x hx => ?_
      obtain ⟨hmem, hscope, -⟩ := mem_listing.mp hx
      exact h.joinSession_eq ht ht' now hmem (beq_iff_eq.mp hscope)
    · -- Names are unique within the scope, and both workers are in it.
      intro x y hx hy hname
      refine Bool.or_eq_true_iff.mpr (.inr (sameKey_eq_true.mpr ⟨(scope, x.name), ?_, ?_⟩))
      · rw [Worker.nameKey, beq_iff_eq.mp hx]
      · rw [Worker.nameKey, beq_iff_eq.mp hy, hname]
  simp only [listWorkers, hlist]

theorem SameRows.getResult_eq (h : SameRows (· = scope) db db') (jobID : UUID) :
    getResult db' scope jobID = getResult db scope jobID := by
  have hfind : (db'.results.rows.find? fun r => r.jobID == jobID && r.scope == scope)
      = db.results.rows.find? fun r => r.jobID == jobID && r.scope == scope := by
    refine SameOn.find?_eq (h.results.restrict ?_ ?_) fun r q hr hq => ?_
    · intro r _ hr
      rw [Bool.and_eq_true, beq_iff_eq, beq_iff_eq] at hr
      exact hr.2
    · intro r _ hr
      rw [Bool.and_eq_true, beq_iff_eq, beq_iff_eq] at hr
      exact hr.2
    · rw [Bool.and_eq_true, beq_iff_eq, beq_iff_eq] at hr hq
      exact sameKey_eq_true.mpr ⟨jobID, congrArg some hr.1, congrArg some hq.1⟩
  unfold getResult
  rw [hfind]

/-- The two databases answer every read of the scope alike, at one instant. -/
structure AnswersAlike (codec : Codec) (collation : SortOrder String) (now : Int) (scope : String)
    (db db' : DB) : Prop where
  get : ∀ id, getByID db' scope id = getByID db scope id
  listJobs : ∀ filter cursor limit,
    listJobs codec db' scope filter cursor limit = listJobs codec db scope filter cursor limit
  listAttempts : ∀ jobID, listAttempts db' scope jobID = listAttempts db scope jobID
  listDLQ : ∀ cursor limit,
    listDLQ codec db' scope cursor limit = listDLQ codec db scope cursor limit
  listWorkers : ∀ cursor limit, listWorkers codec collation now db' scope cursor limit
    = listWorkers codec collation now db scope cursor limit
  getResult : ∀ jobID, getResult db' scope jobID = getResult db scope jobID

end Reads

/-! ## Isolation -/

/-- **Tenant isolation.** A call under a scope, with whatever ids, leaves the jobs,
attempts, leases, workers, sessions, results, dead letters and replays of every
other scope as they are, in every state that the sessions' foreign key admits; the
transactions keep that key themselves. And two reachable states that agree on those
rows of a scope answer every read under it alike. -/
theorem tenant_isolation (scope : String) :
    (∀ (w : World) (req : Request), req.call.scope = some scope → SessionsOwned w.db →
      SameRows (· ≠ scope) w.db (w.step req).2.db) ∧
    (∀ w : World, Reachable w → SessionsOwned w.db) ∧
    ∀ w w' : World, Reachable w → Reachable w' → SameRows (· = scope) w.db w'.db →
      ∀ (codec : Codec) (collation : SortOrder String) (now : Int),
        AnswersAlike codec collation now scope w.db w'.db := by
  refine ⟨fun w req hscope howned => w.step_sameRows hscope howned, fun w hw => hw.sound.workers, ?_⟩
  intro w w' hw hw' hsame codec collation now
  have ht := hw.tied
  have ht' := hw'.tied
  refine ⟨fun id => ?_, hsame.listJobs_eq codec, hsame.listAttempts_eq,
    hsame.listDLQ_eq ht ht' codec, hsame.listWorkers_eq ht ht' codec collation now,
    hsame.getResult_eq⟩
  unfold getByID
  rw [hsame.jobInScope_eq id]

/-- Another tenant registers a worker and submits a job. -/
def sampleNeighbour : List Request :=
  [⟨envAt 5 30 0, .register "neighbour" ⟨31, "worker", "host", "workers", 2, [], ["email"], none⟩⟩,
    ⟨envAt 6 32 33, .submit "neighbour" "key"
      ⟨"default", "email", "\x7b\x7d", 5, 3, 60, [], none⟩ ⟨"", ""⟩⟩]

/-- The neighbour cannot cancel the tenant's running job, and the tenant does not see
that there is a neighbour. -/
theorem tenant_isolation_sample :
    SameRows (· ≠ "neighbour") (quiet.exec sampleStart).2.db
      ((quiet.exec sampleStart).2.step ⟨envAt 5 0 0, .requestCancel "neighbour" 2⟩).2.db ∧
    ∀ (codec : Codec) (collation : SortOrder String) (now : Int),
      AnswersAlike codec collation now "tenant" (quiet.exec sampleStart).2.db
        (quiet.exec (sampleStart ++ sampleNeighbour)).2.db := by
  have hstart : Reachable (quiet.exec sampleStart).2 := quiet_reachable (by decide)
  refine ⟨(tenant_isolation "neighbour").1 _ _ rfl ((tenant_isolation "neighbour").2.1 _ hstart), ?_⟩
  refine (tenant_isolation "tenant").2.2 _ _ hstart (quiet_reachable (by decide)) ?_
  exact .of_filters (by decide +kernel)

end TaskForge
