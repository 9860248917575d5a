/-
What no transaction takes back.

Rows are never removed, and a row that is finished is never rewritten: a job that
ended, an attempt that closed, a lease that was released, a result, a dead letter
and its replays stay as they are in every continuation. An attempt's start and
deadline are stamped once. What identifies a row that is still moving stays with
it too, which is what lets an old fence find its rows again.

All of it comes from what a lawful move may replace: a job that is not terminal,
an attempt that is executing, a lease that is active.
-/
import TaskForge.Correspondence

open Relational Fallible

namespace TaskForge

/-! ## What a move may replace -/

/-- The columns of a job that its birth fixes. -/
def Job.definition (j : Job) :
    UUID × String × String × String × String × Int × Int × Int × List String :=
  (j.id, j.scope, j.queue, j.jobType, j.payload, j.priority, j.maxAttempts, j.timeoutSeconds,
    j.requiredCapabilities)

section Moves

variable {env : Env} {db : DB} {id : UUID} {w : Writes}

theorem finalizedJob_definition (d : Decision) (now : Int) (j : Job) :
    (finalizedJob d now j).definition = j.definition := by
  unfold finalizedJob
  split_ifs <;> rfl

theorem not_terminal_of_executing {s : JobStatus} (h : isExecutingJobStatus s = true) :
    s.terminal = false := by
  cases s <;> first | rfl | cases h

/-- A move replaces a job that has not ended, and keeps what its birth fixed. -/
theorem Lawful.job_replaced (h : Lawful env db id w) {old new : Job}
    (hw : w.job = .replace old new) :
    old.status.terminal = false ∧ new.definition = old.definition := by
  cases h with
  | submit | replay | renew => cases hw
  | cancel j target job cancelable =>
    cases hw
    refine ⟨?_, rfl⟩
    cases hs : old.status <;> rw [hs] at cancelable <;> first | rfl | cases cancelable
  | promote j job promotable =>
    cases hw
    simp only [isPromotable, Bool.and_eq_true, Bool.or_eq_true, beq_iff_eq] at promotable
    refine ⟨?_, rfl⟩
    rcases promotable.1 with hs | hs <;> rw [hs] <;> rfl
  | renotify j after job stranded =>
    cases hw
    simp only [isStranded, Bool.and_eq_true, beq_iff_eq] at stranded
    exact ⟨by rw [stranded.1.1.1]; rfl, rfl⟩
  | claim scope req s j job ready =>
    cases hw
    obtain ⟨⟨-, -, hq, -⟩, -⟩ := isEligible_eq_true.mp ready.eligible
    exact ⟨by rw [hq]; rfl, rfl⟩
  | start s j a l holds live job attempt =>
    cases hw
    exact ⟨by rw [job]; rfl, rfl⟩
  | succeed scope result s j a l holds scope_eq ready =>
    cases hw
    exact ⟨by rw [ready.job]; rfl, rfl⟩
  | finalize scope o d j a l holds scope_eq ends decision identity =>
    cases hw
    exact ⟨not_terminal_of_executing ends.rows.1, finalizedJob_definition d _ _⟩
  | cancellation o ls j a l holds cancels identity =>
    cases hw
    exact ⟨by rw [cancels.rows.1]; rfl, rfl⟩

/-- What a rewritten attempt keeps: whose it is, its number, and the start and the
deadline once they are stamped. -/
structure Stamped (a a' : JobAttempt) : Prop where
  binding : a'.binding = a.binding
  number : a'.attemptNumber = a.attemptNumber
  started : ∀ t, a.startedAt = some t → a'.startedAt = some t
  timeout : ∀ t, a.timeoutAt = some t → a'.timeoutAt = some t

theorem Stamped.refl (a : JobAttempt) : Stamped a a := ⟨rfl, rfl, fun _ h => h, fun _ h => h⟩

theorem Stamped.trans {a b c : JobAttempt} (h : Stamped a b) (h' : Stamped b c) : Stamped a c :=
  ⟨h'.binding.trans h.binding, h'.number.trans h.number,
    fun t ht => h'.started t (h.started t ht), fun t ht => h'.timeout t (h.timeout t ht)⟩

/-- A move replaces an attempt that is executing. Only a start writes the stamps,
and the attempt it starts has none. -/
theorem Lawful.attempt_replaced (h : Lawful env db id w) {now : Int}
    (hgood : Good now (db.caseFile id)) {old new : JobAttempt} (hw : w.attempt = .replace old new) :
    isExecutingAttemptStatus old.status = true ∧ Stamped old new := by
  cases h with
  | start s j a l holds live job attempt =>
    cases hw
    have hex : isExecutingAttemptStatus old.status = true := by rw [attempt]; rfl
    obtain ⟨past, pastLeases, hrun⟩ := holds.executing hgood hex
    obtain ⟨hs, ht⟩ := hrun.open_.unstarted attempt
    refine ⟨hex, rfl, rfl, ?_, ?_⟩
    · intro t hst
      rw [hs] at hst
      cases hst
    · intro t htt
      rw [ht] at htt
      cases htt
  | succeed scope result s j a l holds scope_eq ready =>
    cases hw
    exact ⟨by rw [ready.attempt]; rfl, rfl, rfl, fun _ h => h, fun _ h => h⟩
  | finalize scope o d j a l holds scope_eq ends decision identity =>
    cases hw
    exact ⟨ends.executing, rfl, rfl, fun _ h => h, fun _ h => h⟩
  | cancellation o ls j a l holds cancels identity =>
    cases hw
    exact ⟨cancels.executing.1, rfl, rfl, fun _ h => h, fun _ h => h⟩
  | _ => cases hw

/-- A move replaces a lease that is active, and keeps whose it is. -/
theorem Lawful.lease_replaced (h : Lawful env db id w) {old new : Lease}
    (hw : w.lease = .replace old new) :
    old.status = .active ∧ new.id = old.id ∧ new.binding = old.binding := by
  cases h with
  | renew s j a l req holds ready | succeed scope result s j a l holds scope_eq ready =>
    cases hw
    exact ⟨ready.live.active, rfl, rfl⟩
  | finalize scope o d j a l holds scope_eq ends decision identity =>
    cases hw
    exact ⟨ends.rows.2, rfl, rfl⟩
  | cancellation o ls j a l holds cancels identity =>
    cases hw
    exact ⟨cancels.rows.2, rfl, rfl⟩
  | _ => cases hw

end Moves

/-! ## What every continuation keeps -/

/-- Finished rows of `db` are rows of `db'`, and stamps stay. -/
structure Permanent (db db' : DB) : Prop where
  /-- A job that succeeded, was dead-lettered or was canceled keeps its row. -/
  job : ∀ j ∈ db.jobs.rows, j.status.terminal = true → j ∈ db'.jobs.rows
  /-- A terminal attempt keeps its row. -/
  attempt : ∀ a ∈ db.attempts.rows, isExecutingAttemptStatus a.status = false →
    a ∈ db'.attempts.rows
  /-- A lease that is not active keeps its row. -/
  lease : ∀ l ∈ db.leases.rows, l.status ≠ .active → l ∈ db'.leases.rows
  result : ∀ r ∈ db.results.rows, r ∈ db'.results.rows
  dlqEntry : ∀ e ∈ db.dlqEntries.rows, e ∈ db'.dlqEntries.rows
  dlqReplay : ∀ r ∈ db.dlqReplays.rows, r ∈ db'.dlqReplays.rows
  /-- `started_at` and `timeout_at` are written once. -/
  stamps : ∀ a ∈ db.attempts.rows, ∃ a' ∈ db'.attempts.rows, Stamped a a'

/-- What identifies a row stays with it: jobs, leases and sessions that are still
moving. -/
structure Traceable (db db' : DB) : Prop where
  queues : db'.queues = db.queues
  sessions : SessionsKept db db'
  jobs : ∀ j ∈ db.jobs.rows, ∃ j' ∈ db'.jobs.rows, j'.definition = j.definition
  leases : ∀ l ∈ db.leases.rows, ∃ l' ∈ db'.leases.rows, l'.id = l.id ∧ l'.binding = l.binding

namespace Permanent

theorem refl (db : DB) : Permanent db db :=
  ⟨fun _ h _ => h, fun _ h _ => h, fun _ h _ => h, fun _ h => h, fun _ h => h, fun _ h => h,
    fun a h => ⟨a, h, .refl a⟩⟩

theorem trans {db db' db'' : DB} (h : Permanent db db') (h' : Permanent db' db'') :
    Permanent db db'' where
  job j hj ht := h'.job j (h.job j hj ht) ht
  attempt a ha hc := h'.attempt a (h.attempt a ha hc) hc
  lease l hl hc := h'.lease l (h.lease l hl hc) hc
  result r hr := h'.result r (h.result r hr)
  dlqEntry e he := h'.dlqEntry e (h.dlqEntry e he)
  dlqReplay r hr := h'.dlqReplay r (h.dlqReplay r hr)
  stamps a ha := by
    obtain ⟨b, hb, hab⟩ := h.stamps a ha
    obtain ⟨c, hc, hbc⟩ := h'.stamps b hb
    exact ⟨c, hc, hab.trans hbc⟩

end Permanent

namespace Traceable

theorem refl (db : DB) : Traceable db db :=
  ⟨rfl, .of_eq rfl, fun j h => ⟨j, h, rfl⟩, fun l h => ⟨l, h, rfl, rfl⟩⟩

theorem trans {db db' db'' : DB} (h : Traceable db db') (h' : Traceable db' db'') :
    Traceable db db'' where
  queues := h'.queues.trans h.queues
  sessions s hs := by
    obtain ⟨t, ht, hst⟩ := h.sessions s hs
    obtain ⟨u, hu, htu⟩ := h'.sessions t ht
    exact ⟨u, hu, hst.trans htu⟩
  jobs j hj := by
    obtain ⟨k, hk, hjk⟩ := h.jobs j hj
    obtain ⟨m, hm, hkm⟩ := h'.jobs k hk
    exact ⟨m, hm, hkm.trans hjk⟩
  leases l hl := by
    obtain ⟨m, hm, hid, hbind⟩ := h.leases l hl
    obtain ⟨n, hn, hid', hbind'⟩ := h'.leases m hm
    exact ⟨n, hn, hid'.trans hid, hbind'.trans hbind⟩

end Traceable

section Moves

variable {env : Env} {db db' : DB} {id : UUID} {w : Writes}

theorem Lawful.permanent (h : Lawful env db id w) {now : Int}
    (hgood : Good now (db.caseFile id)) (happ : w.Applied db db') : Permanent db db' where
  job j hj ht := by
    rw [happ.jobs]
    rcases RowWrite.kept_or_replaced hj with hkept | ⟨new, hw, -⟩
    · exact hkept
    · rw [(h.job_replaced hw).1] at ht
      cases ht
  attempt a ha hc := by
    rw [happ.attempts]
    rcases RowWrite.kept_or_replaced ha with hkept | ⟨new, hw, -⟩
    · exact hkept
    · rw [(h.attempt_replaced hgood hw).1] at hc
      cases hc
  lease l hl hc := by
    rw [happ.leases]
    rcases RowWrite.kept_or_replaced hl with hkept | ⟨new, hw, -⟩
    · exact hkept
    · exact absurd (h.lease_replaced hw).1 hc
  result r hr := by
    rw [happ.results]
    exact List.mem_append_left _ hr
  dlqEntry e he := by
    rw [happ.dlqEntries]
    exact List.mem_append_left _ he
  dlqReplay r hr := by
    rw [happ.dlqReplays]
    exact List.mem_append_left _ hr
  stamps a ha := by
    rw [happ.attempts]
    rcases RowWrite.kept_or_replaced ha with hkept | ⟨new, hw, hmem⟩
    · exact ⟨a, hkept, .refl a⟩
    · exact ⟨new, hmem, (h.attempt_replaced hgood hw).2⟩

theorem Lawful.traceable (h : Lawful env db id w) (happ : w.Applied db db') :
    Traceable db db' where
  queues := happ.queues
  sessions := .of_eq happ.sessions
  jobs j hj := by
    rw [happ.jobs]
    rcases RowWrite.kept_or_replaced hj with hkept | ⟨new, hw, hmem⟩
    · exact ⟨j, hkept, rfl⟩
    · exact ⟨new, hmem, (h.job_replaced hw).2⟩
  leases l hl := by
    rw [happ.leases]
    rcases RowWrite.kept_or_replaced hl with hkept | ⟨new, hw, hmem⟩
    · exact ⟨l, hkept, rfl, rfl⟩
    · exact ⟨new, hmem, (h.lease_replaced hw).2⟩

end Moves

/-! ## Where a job comes from -/

/-- The instants of its birth and its schedule, and the job it replaces, are fixed with
it as well. -/
theorem Lawful.birth_kept {env : Env} {db : DB} {id : UUID} {w : Writes} (h : Lawful env db id w)
    {old new : Job} (hw : w.job = .replace old new) :
    new.scheduledAt = old.scheduledAt ∧ new.createdAt = old.createdAt ∧
      new.replayedFromJobID = old.replayedFromJobID := by
  cases h with
  | finalize scope o d j a l holds scope_eq ends decision identity =>
    cases hw
    unfold finalizedJob
    split_ifs <;> exact ⟨rfl, rfl, rfl⟩
  | submit | replay | renew => cases hw
  | _ =>
    cases hw
    exact ⟨rfl, rfl, rfl⟩

/-- A job after a transaction is one that was there, or the one a submission or a
replay made. -/
inductive JobOrigin (env : Env) (db : DB) (call : Call) (j' : Job) : Prop where
  | kept (j : Job) (mem : j ∈ db.jobs.rows) (definition : j'.definition = j.definition)
      (schedule : j'.scheduledAt = j.scheduledAt)
  | submitted (scope key : String) (req : NormalizedRequest) (trace : TraceContext)
      (made : call = .submit scope key req trace) (eq : j' = submittedJob env scope req)
  | replacement (scope : String) (original : Job) (mem : original ∈ db.jobs.rows)
      (eq : j' = replacementJob env scope original)

theorem Commit.job_origin {env : Env} {db db' : DB} {call : Call} (h : Commit env db db' call)
    {j' : Job} (hj' : j' ∈ db'.jobs.rows) : JobOrigin env db call j' := by
  have hsame : db'.jobs = db.jobs → JobOrigin env db call j' := by
    intro hjobs
    rw [hjobs] at hj'
    exact .kept j' hj' rfl rfl
  cases h with
  | unchanged call same => exact hsame (by rw [same])
  | registered scope registration reg wid valid only => exact hsame only.jobs
  | beat scope req s session scope_eq healthy moved => exact hsame moved.only.jobs
  | staled s staleAfter stale moved => exact hsame moved.only.jobs
  | wrote call id writes performs applied =>
    have lawful := performs.lawful fun _ hw => unborn_of_insert applied hw
    rw [applied.jobs] at hj'
    rcases RowWrite.mem_apply hj' with hmem | hinsert | ⟨old, hold, hreplace⟩
    · exact .kept j' hmem rfl rfl
    · cases performs with
      | submit scope key req trace queue =>
        cases hinsert
        exact .submitted scope key req trace rfl rfl
      | replay scope originalJobID key original ready =>
        cases hinsert
        exact .replacement scope original ready.mem rfl
      | expire stats s j a l w binding lapsed verdict => cases verdict <;> cases hinsert
      | _ => cases hinsert
    · exact .kept old hold (lawful.job_replaced hreplace).2 (lawful.birth_kept hreplace).1

section Runs

variable {w w' : World} {l : Label} {trace : List Label}
variable {db db' : DB} {scope : String} {fence : Fence} {s : WorkerSession} {j : Job}
  {a : JobAttempt} {m : Lease}

theorem Step.permanent (hs : Step w l w') (h : Sound w) : Permanent w.db w'.db := by
  cases hs.effect with
  | unchanged same =>
    rw [same]
    exact .refl _
  | sessions only kept workers owned =>
    refine ⟨?_, ?_, ?_, ?_, ?_, ?_, ?_⟩
    · rw [only.jobs]; exact fun _ h _ => h
    · rw [only.attempts]; exact fun _ h _ => h
    · rw [only.leases]; exact fun _ h _ => h
    · rw [only.results]; exact fun _ h => h
    · rw [only.dlqEntries]; exact fun _ h => h
    · rw [only.dlqReplays]; exact fun _ h => h
    · rw [only.attempts]; exact fun a h => ⟨a, h, .refl a⟩
  | move id writes lawful applied => exact lawful.permanent (h.cases id) applied

theorem Step.traceable (hs : Step w l w') : Traceable w.db w'.db := by
  cases hs.effect with
  | unchanged same =>
    rw [same]
    exact .refl _
  | sessions only kept workers owned =>
    refine ⟨only.queues, kept, ?_, ?_⟩
    · rw [only.jobs]; exact fun j h => ⟨j, h, rfl⟩
    · rw [only.leases]; exact fun l h => ⟨l, h, rfl, rfl⟩
  | move id writes lawful applied => exact lawful.traceable applied

theorem Sound.permanent (h : Sound w) (hrun : Execution w trace w') : Permanent w.db w'.db :=
  hrun.related (P := Sound) (R := fun v v' => Permanent v.db v'.db) (fun v => .refl v.db)
    Permanent.trans (fun hsound hstep => hstep.sound hsound)
    (fun hsound hstep => hstep.permanent hsound) h

theorem traceable_of_run (hrun : Execution w trace w') : Traceable w.db w'.db :=
  hrun.related (P := fun _ => True) (R := fun v v' => Traceable v.db v'.db) (fun v => .refl v.db)
    Traceable.trans (fun _ _ => trivial) (fun _ hstep => hstep.traceable) trivial

/-! ### Fences find their rows again -/

/-- The binding of a fence after a transaction rewrote its job, attempt and lease. -/
theorem Authority.moved {j' : Job} {a' : JobAttempt} {m' : Lease} {writes : Writes}
    (h : Authority db scope fence s j a m) (happ : writes.Applied db db')
    (hj : writes.job = .replace j j') (ha : writes.attempt = .replace a a')
    (hm : writes.lease = .replace m m') (hjdef : j'.definition = j.definition)
    (habind : a'.binding = a.binding) (hmid : m'.id = m.id) (hmbind : m'.binding = m.binding) :
    Authority db' scope fence s j' a' m' := by
  simp only [Job.definition, JobAttempt.binding, Lease.binding, Prod.mk.injEq] at hjdef habind hmbind
  obtain ⟨hjid, hjscope, -⟩ := hjdef
  obtain ⟨haid, hajob, hascope, -, hawork, hasess⟩ := habind
  obtain ⟨hmatt, hmjob, hmscope, hmqueue, hmwork, hmsess⟩ := hmbind
  have hjmem : j' ∈ db'.jobs.rows := by
    rw [happ.jobs, hj]
    exact mem_replaceRow.mpr (.inr ⟨rfl, h.job_mem⟩)
  have hamem : a' ∈ db'.attempts.rows := by
    rw [happ.attempts, ha]
    exact mem_replaceRow.mpr (.inr ⟨rfl, h.attempt_mem⟩)
  exact
    { session_mem := happ.sessions ▸ h.session_mem
      session_id := h.session_id
      session_worker := h.session_worker
      session_scope := h.session_scope
      job_mem := hjmem
      job_id := hjid.trans h.job_id
      job_scope := hjscope.trans h.job_scope
      attempt_mem := hamem
      attempt_id := haid.trans h.attempt_id
      attempt_job := hajob.trans h.attempt_job
      attempt_worker := hawork.trans h.attempt_worker
      attempt_session := hasess.trans h.attempt_session
      attempt_scope := hascope.trans h.attempt_scope
      lease_mem := happ.lease_mem hm h.lease_mem
      lease_id := hmid.trans h.lease_id
      lease_job := hmjob.trans h.lease_job
      lease_attempt := hmatt.trans h.lease_attempt
      lease_worker := hmwork.trans h.lease_worker
      lease_session := hmsess.trans h.lease_session
      lease_scope := hmscope.trans h.lease_scope
      queue_known := by rw [happ.queues, hmqueue]; exact h.queue_known }

/-- A fence whose attempt is over finds the same attempt and the same lease in
every continuation, whatever became of the job and the session. -/
theorem Authority.later (h : Authority db scope fence s j a m) (hp : Permanent db db')
    (ht : Traceable db db') (ha : isExecutingAttemptStatus a.status = false)
    (hm : m.status ≠ .active) :
    ∃ s' j', Authority db' scope fence s' j' a m := by
  obtain ⟨s', hs', hout⟩ := ht.sessions s h.session_mem
  obtain ⟨j', hj', hdef⟩ := ht.jobs j h.job_mem
  simp only [Job.definition, Prod.mk.injEq] at hdef
  exact ⟨s', j',
    { h with
      session_mem := hs'
      session_id := hout.id.trans h.session_id
      session_worker := hout.worker.trans h.session_worker
      session_scope := hout.scope.trans h.session_scope
      job_mem := hj'
      job_id := hdef.1.trans h.job_id
      job_scope := hdef.2.1.trans h.job_scope
      attempt_mem := hp.attempt a h.attempt_mem ha
      lease_mem := hp.lease m h.lease_mem hm
      queue_known := by rw [ht.queues]; exact h.queue_known }⟩

/-- Whatever transactions follow a reachable state, no finished row is changed or
removed, and no stamp moves. -/
theorem history_permanent (h : Reachable w) (hrun : Execution w trace w') :
    Permanent w.db w'.db := h.sound.permanent hrun

end Runs

/-- A failed attempt, kept while its job is promoted and claimed again. -/
theorem history_permanent_retry :
    (quiet.exec (sampleStart ++ [sampleFail])).2.db.attempts.rows.map JobAttempt.status
        = [.failed] ∧
      ((quiet.exec (sampleStart ++ [sampleFail])).2.exec sampleRetry).2.db.attempts.rows.map
        JobAttempt.status = [.failed, .leased] ∧
      Permanent (quiet.exec (sampleStart ++ [sampleFail])).2.db
        ((quiet.exec (sampleStart ++ [sampleFail])).2.exec sampleRetry).2.db := by
  refine ⟨by decide +kernel, by decide +kernel, ?_⟩
  exact history_permanent (quiet_reachable (by decide)) (World.exec_run (by decide +kernel))

end TaskForge
