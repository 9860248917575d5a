/-
The code and the schema, at every step of a run.

Every row that a worker's call, the scheduler, the reconciler, a cancellation or a
replay is about to write satisfies the checks and the unique indexes of its table:
the guard of the move and the invariant of its case file give what each of them
asks. So none of these transactions is refused by the schema; what refuses a call
is the call's own check. There are two exceptions. `results.Result.Validate` asks of
an object's checksum only that it is there, and the column wants 64 hex digits; it asks
of an inline body only that it is there, and `jsonb` refuses a U+0000 and some more
(`resultRow_check`). A success that reports either is rolled back
(`undigested_result_refused`). Submission is left out, for its arguments are the
client's, and are validated before the store is called.
-/
import TaskForge.Admission

open Relational Fallible Runs

namespace TaskForge

/-! ## A lease and its identity -/

/-- The assignment a lease stands for. -/
structure Assigns (l : Lease) (x : Assignment) : Prop where
  scope : x.scope = l.scope
  queue : x.queue = l.queue
  job : x.jobID = l.jobID
  attempt : x.attemptID = l.attemptID
  lease : x.leaseID = l.id
  worker : x.workerID = l.workerID
  session : x.sessionID = l.workerSessionID

section Claims

variable {w : World} {l : Lease}

/-- The identity of a lease is answered with the lease's own assignment. -/
theorem Sound.lookupClaim_of_lease (h : Sound w) (hl : l ∈ w.db.leases.rows) :
    ∃ x, lookupClaim w.db l.claimRequestID = some x ∧ Assigns l x := by
  obtain ⟨j, hj, a, ha, hbound⟩ := h.run_of_lease hl
  have hlease : (w.db.leases.rows.find? fun m => m.claimRequestID == l.claimRequestID) = some l := by
    refine find?_eq_some_of_unique hl (beq_self_eq_true _) fun m hm hid => ?_
    exact w.db.lease_eq_of_claim hm hl (beq_iff_eq.mp hid)
  have hattempt : (w.db.attempts.rows.find? fun b => b.id == l.attemptID) = some a := by
    refine find?_eq_some_of_unique ha (beq_iff_eq.mpr hbound.lease_attempt.symm) fun b hb hid => ?_
    exact w.db.attempt_eq_of_id hb ha ((beq_iff_eq.mp hid).trans hbound.lease_attempt)
  have hjob : (w.db.jobs.rows.find? fun k => k.id == a.jobID) = some j := by
    refine find?_eq_some_of_unique hj (beq_iff_eq.mpr hbound.attempt_job.symm) fun k hk hid => ?_
    exact w.db.job_eq_of_id hk hj ((beq_iff_eq.mp hid).trans hbound.attempt_job)
  refine ⟨_, by simp only [lookupClaim, hlease, hattempt, hjob, Option.bind_eq_bind,
    Option.bind_some]; rfl, ?_⟩
  exact
    { scope := hbound.attempt_scope.trans hbound.lease_scope.symm
      queue := hbound.lease_queue.symm
      job := hbound.lease_job.symm
      attempt := hbound.lease_attempt.symm
      lease := rfl
      worker := hbound.worker.symm
      session := hbound.session.symm }

/-- A claim identity that has no answer has no lease. -/
theorem Sound.unclaimed (h : Sound w) {claimID : UUID} (hnone : lookupClaim w.db claimID = none) :
    ∀ l ∈ w.db.leases.rows, l.claimRequestID ≠ claimID := by
  intro l hl hid
  obtain ⟨x, hx, -⟩ := h.lookupClaim_of_lease hl
  rw [hid, hnone] at hx
  cases hx

end Claims

/-! ## Moves of a waiting job -/

section Waiting

variable {w : World} {env : Env} {id : UUID} {j : Job}

theorem replay_admitted (hfresh : Fresh env w.db) {scope key : String} {original : Job}
    (ready : ReplayReady scope original.id w.db original) :
    (replayWrites env scope key original).Admitted w.db := by
  have hc := (w.db.job_checked ready.mem).replace (hfresh.job original ready.mem)
  rw [ready.scope_eq] at hc
  refine ⟨⟨Job.check_eq_true.mpr hc, ?_⟩, trivial, trivial, ?_, List.forall_mem_nil _, List.forall_mem_nil _⟩
  · intro x hx
    exact sameKey_eq_false.mpr fun k hk hxk =>
      hfresh.job x hx (Option.some.inj (hxk.trans hk.symm))
  · intro e he
    rw [List.mem_singleton.mp he]
    exact admits_event (fun e he => (hfresh.event e he).2) _ _ _ le_rfl

theorem promote_admitted (hfresh : Fresh env w.db) (hj : j ∈ w.db.jobs.rows)
    (promotable : isPromotable env.clock.s₀ j = true) : (promoteWrites env j).Admitted w.db := by
  have hstamped : j.status.stamped = false := by
    simp only [isPromotable, Bool.and_eq_true, Bool.or_eq_true, beq_iff_eq] at promotable
    rcases promotable.1 with hs | hs <;> rw [hs] <;> rfl
  refine ⟨admits_job hj rfl ((w.db.job_checked hj).enqueue hstamped), trivial, trivial, ?_,
    List.forall_mem_nil _, List.forall_mem_nil _⟩
  intro e he
  rw [List.mem_singleton.mp he]
  exact admits_event (fun e he => (hfresh.event e he).1) _ _ _ (Nat.le_add_left 1 _)

theorem renotify_admitted (hfresh : Fresh env w.db) (hj : j ∈ w.db.jobs.rows) {after : Int}
    (stranded : isStranded w.db after env.clock.s₀ j = true) :
    (renotifyWrites env j).Admitted w.db := by
  simp only [isStranded, Bool.and_eq_true, decide_eq_true_eq] at stranded
  have hgen := stranded.1.1.2
  refine ⟨admits_job hj rfl ((w.db.job_checked hj).renotify hgen), trivial, trivial, ?_,
    List.forall_mem_nil _, List.forall_mem_nil _⟩
  intro e he
  rw [List.mem_singleton.mp he]
  exact admits_event (fun e he => (hfresh.event e he).1) _ _ _ hgen

theorem claim_admitted (hsound : Sound w) (hfresh : Fresh env w.db)
    (hdur : 1000 ≤ env.leaseDuration) {scope : String} {req : ClaimRequest} {s : WorkerSession}
    (job : (w.db.caseFile id).job = some j) (ready : ClaimReady env scope req w.db s j) :
    (claimWrites env scope req (w.db.caseFile id).nextNumber j).Admitted w.db := by
  obtain ⟨hj, hid⟩ := caseFile_job_eq_some.mp job
  obtain ⟨⟨hscope, -, hqueued, -⟩, -⟩ := isEligible_eq_true.mp ready.eligible
  have hc := w.db.job_checked hj
  have hbounded : scopeBounded scope = true := hscope ▸ hc.scope
  have hwaits := ((hsound.cases id).phase job).waits (.inr (.inl hqueued))
  refine ⟨?_, ?_, ?_, List.forall_mem_nil _, List.forall_mem_nil _, List.forall_mem_nil _⟩
  · exact admits_job hj rfl (hc.move (by rw [hqueued]; rfl) rfl (by decide))
  · refine admits_claimedAttempt hfresh.attempt hbounded (Nat.succ_pos _) ?_
    intro b hb hbjob
    have hmem : b ∈ (w.db.caseFile id).attempts := mem_caseFile_attempts.mpr ⟨hb, hbjob.trans hid⟩
    have hle := (hwaits.history.numbers.bounds hmem).2
    rw [CaseFile.nextNumber, hwaits.history.numbers.foldr_max]
    omega
  · refine admits_claimedLease hfresh.lease hbounded hdur ?_ (hsound.unclaimed ready.unclaimed) ?_
    · intro m hm
      obtain ⟨k, -, b, hb, hbound⟩ := hsound.run_of_lease hm
      rw [hbound.lease_attempt]
      exact hfresh.attempt b hb
    · intro m hm hmjob
      exact hwaits.history.lease_closed (mem_caseFile_leases.mpr ⟨hm, hmjob.trans hid⟩)

end Waiting

/-! ## Moves of an executing job -/

section Executing

variable {db : DB} {env : Env} {id : UUID} {j : Job} {a : JobAttempt} {l : Lease} {now t : Int}

/-- A deadline is after the start it counts from. -/
theorem lt_startDeadline (hj : j.Checked) : t < startDeadline t j := by
  have hpos := hj.timeoutSeconds.1
  unfold startDeadline storeTime goTime second
  omega

/-- An open attempt rewritten with an outcome identity that no attempt has, if with
any. -/
theorem admits_openAttempt (ha : a ∈ db.attempts.rows) (ho : OpenRun now a l) {o : Option UUID}
    (identity : ∀ r, o = some r → ∀ b ∈ db.attempts.rows, b.outcomeRequestID ≠ some r)
    {a' : JobAttempt} (hid : a'.id = a.id) (hnumber : a'.numberKey = a.numberKey)
    (hout : a'.outcomeRequestID = o.or a.outcomeRequestID) (hc : a'.Checked) :
    db.attempts.Admits (.replace a a') := by
  refine admits_attempt ha hid hnumber ?_ hc
  intro r hr
  rw [hout, ho.unreported, Option.or_none] at hr
  exact identity r hr

theorem start_admitted (holds : Holds db id j a l) (ho : OpenRun now a l) (hle : now ≤ t)
    (job : j.status = .leased) (attempt : a.status = .leased) :
    (startWrites t j a).Admitted db := by
  obtain ⟨⟨hj, -⟩, ⟨ha, -⟩, -⟩ := holds.rows
  have hc := db.job_checked hj
  refine ⟨?_, ?_, trivial, List.forall_mem_nil _, List.forall_mem_nil _, List.forall_mem_nil _⟩
  · exact admits_job hj rfl (hc.move (by rw [job]; rfl) rfl (by decide))
  · refine admits_openAttempt (o := none) ha ho (by simp) rfl rfl rfl ?_
    exact (db.attempt_checked ha).start attempt (ho.created.trans hle) (lt_startDeadline hc)

theorem renew_admitted (holds : Holds db id j a l) (ho : OpenRun now a l)
    (hle : now ≤ env.clock.s₀) (hdur : 1000 ≤ env.leaseDuration) {req : RenewalRequest}
    {s : WorkerSession} (ready : RenewReady env req db s j a l) :
    (renewWrites env env.clock.s₀ req.renewalRequestID l).Admitted db := by
  have hl := (mem_caseFile_leases.mp holds.lease).1
  refine ⟨trivial, trivial, admits_lease hl rfl rfl rfl (.inr rfl) (.inr ?_) ?_,
    List.forall_mem_nil _, List.forall_mem_nil _, List.forall_mem_nil _⟩
  · intro r hr
    cases hr
    exact ready.identity
  · exact (db.lease_checked hl).renew (ho.acquired.trans hle) (lt_leaseExpiry hdur _) _

theorem succeed_admitted (holds : Holds db id j a l) (ho : OpenRun now a l)
    (hle : now ≤ env.clock.s₀) (hnone : (db.caseFile id).results = []) {scope : String}
    {result : Option ResultRef} {s : WorkerSession} (ready : SucceedReady env.clock.s₀ s j a l)
    (hcheck : ∀ r ∈ (succeedWrites env scope env.clock.s₀ result j a l).results, r.check = true) :
    (succeedWrites env scope env.clock.s₀ result j a l).Admitted db := by
  obtain ⟨⟨hj, hid⟩, ⟨ha, -⟩, hl, -⟩ := holds.rows
  refine ⟨?_, ?_, ?_, List.forall_mem_nil _, List.forall_mem_nil _, ?_⟩
  · exact admits_job hj rfl ((db.job_checked hj).move (by rw [ready.job]; rfl) rfl (by decide))
  · exact admits_openAttempt (o := none) ha ho (by simp) rfl rfl rfl
      ((db.attempt_checked ha).succeed ho hle ready.attempt)
  · exact admits_closedLease hl (ho.acquired.trans hle) (by decide)
  · intro r hr
    refine ⟨hcheck r hr, fun x hx => ?_⟩
    show sameKey ResultRow.jobKey x r = false
    refine sameKey_eq_false.mpr fun k hk hxk => ?_
    -- The job has no result yet, and the clashing row would be its result.
    obtain ⟨ref, -, rfl⟩ : ∃ ref, result = some ref ∧
        resultRow env.clock.start scope j.id a.id ref = r := by
      simpa [succeedWrites] using hr
    have hjob : x.jobID = id := (Option.some.inj (hxk.trans hk.symm)).trans hid
    have hmem : x ∈ (db.caseFile id).results := mem_caseFile_results.mpr ⟨hx, hjob⟩
    rw [hnone] at hmem
    cases hmem

theorem cancellation_admitted (holds : Holds db id j a l) (ho : OpenRun now a l) (hle : now ≤ t)
    {o : Option UUID} {ls : LeaseStatus} (cancels : Cancels t j a l o ls)
    (identity : ∀ r, o = some r → ∀ b ∈ db.attempts.rows, b.outcomeRequestID ≠ some r) :
    (cancellationWrites o ls t j a l).Admitted db := by
  obtain ⟨⟨hj, -⟩, ⟨ha, -⟩, hl, -⟩ := holds.rows
  refine ⟨?_, ?_, ?_, List.forall_mem_nil _, List.forall_mem_nil _, List.forall_mem_nil _⟩
  · exact admits_job hj rfl ((db.job_checked hj).complete cancels.rows.1)
  · exact admits_openAttempt ha ho identity rfl rfl rfl ((db.attempt_checked ha).cancel ho hle o)
  · exact admits_closedLease hl (ho.acquired.trans hle) cancels.executing.2

/-- The statuses a lease gets when its attempt ends. -/
theorem Ends.lease_closed {o : AttemptOutcome} (h : Ends t j a l o) : o.leaseStatus ≠ .active := by
  cases h <;> simp [failedOutcome, timeoutOutcome, abandonedOutcome]

theorem finalize_admitted (hfresh : Fresh env db) (holds : Holds db id j a l)
    (ho : OpenRun now a l) (hle : now ≤ env.clock.s₀) (hdlq : (db.caseFile id).dlq = [])
    {o : AttemptOutcome} {d : Decision} (ends : Ends env.clock.s₀ j a l o)
    (decision : env.retryPolicy.decide o.class_ a.attemptNumber a.attemptNumber j.maxAttempts
      env.backoff = .ok d)
    (identity : ∀ r, o.outcomeRequestID = some r →
      ∀ b ∈ db.attempts.rows, b.outcomeRequestID ≠ some r) :
    (finalizeWrites env j.scope o d env.clock.s₀ j a l).Admitted db := by
  obtain ⟨⟨hj, hid⟩, ⟨ha, -⟩, hl, -⟩ := holds.rows
  have hc := db.attempt_checked ha
  refine ⟨?_, ?_, ?_, ?_, ?_, List.forall_mem_nil _⟩
  · exact admits_job hj (finalizedJob_id d _ j) ((db.job_checked hj).finalize ends.rows.1 d)
  · exact admits_openAttempt ha ho identity rfl rfl rfl
      (hc.finalize ho hle (ends.fits hc ho) (decide_sound decision))
  · exact admits_closedLease hl (ho.acquired.trans hle) ends.lease_closed
  · intro e he
    rw [finalize_event_mem he]
    exact admits_event (fun e he => (hfresh.event e he).1) _ _ _ (Nat.le_add_left 1 _)
  · intro e he
    obtain ⟨reason, -, rfl⟩ := finalize_entry_mem he
    refine admits_dlqEntry hfresh.dlqEntry (db.job_checked hj).scope ?_
    -- The case file of an executing job has no entry, and the entry would be in it.
    intro x hx hxj
    have hmem : x ∈ (db.caseFile id).dlq := mem_caseFile_dlq.mpr ⟨hx, hxj.trans hid⟩
    rw [hdlq] at hmem
    cases hmem

end Executing

/-! ## Every call -/

/-- The calls that submit a job. -/
def Call.submits : Call → Bool
  | .submit .. => true
  | _ => false

/-- The validators in front of the store accept the arguments, and their text holds
no NUL. What the store validates itself is not repeated here. -/
def Call.accepted : Call → Bool
  | .register scope reg => scopeBounded scope && storable reg.hostname
  | .replay _ _ key => (validateIdempotencyKey key).isEmpty
  | .succeed _ _ (some r) => r.problem.isNone && storable r.bucket && storable r.key
  | _ => true

/-- An object reported with a success comes with its SHA-256, and an inline result is a
document that `jsonb` takes. -/
def Call.storable : Call → Bool
  | .succeed _ _ (some r) => r.digested && r.taken
  | _ => true

/-- What is taken for granted about a call: the ids it draws are fresh, a lease lasts
a microsecond or more, and its arguments are accepted. -/
structure Admissible (db : DB) (req : Request) : Prop where
  fresh : Fresh req.env db
  duration : 1000 ≤ req.env.leaseDuration
  accepted : req.call.accepted = true

instance (db : DB) (req : Request) : Decidable (Admissible db req) :=
  decidable_of_iff (Fresh req.env db ∧ 1000 ≤ req.env.leaseDuration ∧ req.call.accepted = true)
    ⟨fun ⟨h₁, h₂, h₃⟩ => ⟨h₁, h₂, h₃⟩, fun ⟨h₁, h₂, h₃⟩ => ⟨h₁, h₂, h₃⟩⟩

section Calls

variable {w : World} {env : Env} {id : UUID} {writes : Writes} {call : Call} {f : Failure}
variable {db : DB} {scope : String} {registration reg : Registration}

/-- **A lawful move writes rows the schema admits.** Submissions apart, which are told
by their idempotency record, and provided that its result passes its check. -/
theorem Lawful.admitted (h : Lawful env w.db id writes) (hsound : Sound w)
    (hclock : w.clock ≤ env.clock.s₀) (hfresh : Fresh env w.db) (hdur : 1000 ≤ env.leaseDuration)
    (hborn : writes.idempotency = []) (hresults : ∀ r ∈ writes.results, r.check = true) :
    writes.Admitted w.db := by
  have hgood := hsound.cases id
  cases h with
  | submit scope key req trace unborn new queue => cases hborn
  | replay scope key original unborn new ready => exact replay_admitted hfresh ready
  | cancel j target job cancelable =>
    have hj := (caseFile_job_eq_some.mp job).1
    exact ⟨admits_job hj rfl ((w.db.job_checked hj).cancel cancelable), trivial, trivial,
      List.forall_mem_nil _, List.forall_mem_nil _, List.forall_mem_nil _⟩
  | promote j job promotable =>
    exact promote_admitted hfresh (caseFile_job_eq_some.mp job).1 promotable
  | renotify j after job stranded =>
    exact renotify_admitted hfresh (caseFile_job_eq_some.mp job).1 stranded
  | claim scope req s j job ready => exact claim_admitted hsound hfresh hdur job ready
  | start s j a l holds live job attempt =>
    obtain ⟨past, pastLeases, hrun⟩ := holds.executing hgood (by rw [attempt]; rfl)
    exact start_admitted holds hrun.open_ hclock job attempt
  | renew s j a l req holds ready =>
    obtain ⟨past, pastLeases, hrun⟩ := holds.executing hgood ready.attempt
    exact renew_admitted holds hrun.open_ hclock hdur ready
  | succeed scope result s j a l holds scope_eq ready =>
    obtain ⟨past, pastLeases, hrun⟩ := holds.executing hgood (by rw [ready.attempt]; rfl)
    exact succeed_admitted holds hrun.open_ hclock hrun.results ready hresults
  | finalize scope o d j a l holds scope_eq ends decision identity =>
    obtain ⟨past, pastLeases, hrun⟩ := holds.executing hgood ends.executing
    rw [← scope_eq]
    exact finalize_admitted hfresh holds hrun.open_ hclock hrun.dlq ends decision identity
  | cancellation o ls j a l holds cancels identity =>
    obtain ⟨past, pastLeases, hrun⟩ := holds.executing hgood cancels.executing.1
    exact cancellation_admitted holds hrun.open_ hclock cancels identity

/-- Only a submission writes an idempotency record. -/
theorem Performs.idempotency_nil (h : Performs env db call id writes)
    (hcall : call.submits = false) : writes.idempotency = [] := by
  cases h with
  | submit scope key req trace queue => cases hcall
  | expire stats s j a l writes binding lapsed verdict => cases verdict <;> rfl
  | _ => rfl

/-- Only a replay writes a replay record. -/
theorem Performs.of_replay (h : Performs env db call id writes) {r : DLQReplay}
    (hr : r ∈ writes.replays) :
    ∃ scope originalJobID key, call = .replay scope originalJobID key := by
  cases h with
  | replay scope originalJobID key original ready => exact ⟨scope, originalJobID, key, rfl⟩
  | expire stats s j a l writes binding lapsed verdict => cases verdict <;> cases hr
  | _ => cases hr

/-- Only a success writes a result, and the row of one that is accepted and storable
passes its check. -/
theorem Performs.results_checked (h : Performs env db call id writes)
    (haccepted : call.accepted = true) (hstorable : call.storable = true) :
    ∀ r ∈ writes.results, r.check = true := by
  intro r hr
  cases h with
  | succeed scope fence result s j a l binding ready =>
    cases result with
    | none => cases hr
    | some ref =>
      simp only [Call.accepted, Bool.and_eq_true, Option.isNone_iff_eq_none] at haccepted
      obtain ⟨⟨hvalid, hbucket⟩, hkey⟩ := haccepted
      have hscope : scopeBounded scope = true :=
        binding.job_scope ▸ (db.job_checked binding.job_mem).scope
      obtain rfl : r = resultRow env.clock.start scope j.id a.id ref := List.mem_singleton.mp hr
      have hstorable : (ref.digested && ref.taken) = true := hstorable
      rw [resultRow_check _ _ _ hvalid hscope, hstorable, hbucket, hkey]
      rfl
  | expire stats s j a l writes binding lapsed verdict => cases verdict <;> cases hr
  | _ => cases hr

theorem Performs.admitted (h : Performs env w.db call id writes) (hsound : Sound w)
    (hclock : w.clock ≤ env.clock.s₀) (ha : Admissible w.db ⟨env, call⟩)
    (hcall : call.submits = false) (hstorable : call.storable = true) : writes.Admitted w.db := by
  refine (h.lawful fun j hj => ?_).admitted hsound hclock ha.fresh ha.duration
    (h.idempotency_nil hcall) (h.results_checked ha.accepted hstorable)
  -- A birth goes under a drawn id, and no job has it.
  cases hcf : (w.db.caseFile j.id).job with
  | none => rfl
  | some k =>
    obtain ⟨hk, hkid⟩ := caseFile_job_eq_some.mp hcf
    have hdrawn : j.id = env.id₁ := by
      cases h with
      | expire stats s j' a l writes binding lapsed verdict => cases verdict <;> cases hj
      | _ => cases hj <;> rfl
    exact absurd (hkid.trans hdrawn) (ha.fresh.job k hk)

/-- A new session takes an id that no session has, and its worker's current session
was ended first. -/
theorem admits_newSession {wid : UUID} {fenced : Table workerSessions}
    (hworkers : ∀ s ∈ db.sessions.rows, ∃ x ∈ db.workers.rows,
      x.id = s.workerID ∧ x.scope = s.scope) (rows : fenced.rows = db.sessions.rows.map fun s =>
      if s.workerID == wid && isCurrentSessionStatus s.status then fencedSession env.clock.s₁ s
      else s) (unknown : ∀ s ∈ db.sessions.rows, s.id = reg.sessionID →
      ∀ x ∈ db.workers.rows, x.id ≠ s.workerID)
    (hreg : normalizeRegistration registration = .ok reg) (hscope : scopeBounded scope = true)
    (hhost : storable reg.hostname = true) :
    fenced.Admits (.insert (newSession scope wid reg env.clock.s₂)) := by
  refine ⟨WorkerSession.check_eq_true.mpr (newSession_checked wid _ hreg hscope hhost), ?_⟩
  intro x hx
  rw [rows, List.mem_map] at hx
  obtain ⟨s, hs, rfl⟩ := hx
  simp only [workerSessions, Bool.or_eq_false_iff]
  constructor
  · refine sameKey_eq_false.mpr fun k hk hxk => ?_
    have hid : s.id = reg.sessionID := by
      have hkey := Option.some.inj (hxk.trans hk.symm)
      split_ifs at hkey <;> exact hkey
    obtain ⟨y, hy, hyid, -⟩ := hworkers s hs
    exact unknown s hs hid y hy hyid
  · refine sameKey_eq_false.mpr fun k hk hxk => ?_
    have hwid : wid = k := Option.some.inj hk
    split_ifs at hxk with hfence
    · cases hxk
    · unfold WorkerSession.currentKey at hxk
      split_ifs at hxk with hcurrent
      rw [← hwid, Option.some.injEq] at hxk
      exact hfence (by simp [hxk, hcurrent])

/-- Nothing of an accepted registration is refused. -/
theorem RegisterRefused.absurd (h : RegisterRefused env scope reg w.db f) (hsound : Sound w)
    (hclock : w.clock ≤ env.clock.s₀) (hfresh : Fresh env w.db)
    (hreg : normalizeRegistration registration = .ok reg) (hscope : scopeBounded scope = true)
    (hhost : storable reg.hostname = true) : False := by
  cases h with
  | worker refused =>
    exact upsertWorker_ne_error hfresh.worker hscope (normalizeRegistration_eq_ok hreg).2.1 refused
  | fencing s mem refused =>
    have hle : s.registeredAt ≤ env.clock.s₁ :=
      (hsound.registered s mem).trans (hclock.trans env.clock.le₁)
    have hadmits := admits_endedSession mem hle (by decide : isCurrentSessionStatus .offline = false)
    exact RowWriteRefused.not_admits (w := .replace s _) refused hadmits
  | session wid fenced rows unknown refused =>
    have hadmits := admits_newSession hsound.workers rows unknown hreg hscope hhost
    exact RowWriteRefused.not_admits (w := .insert _) refused hadmits

/-- **The schema refuses no admissible call.** -/
theorem Call.not_refused (hsound : Sound w) (hclock : w.clock ≤ env.clock.s₀)
    (ha : Admissible w.db ⟨env, call⟩) (hcall : call.submits = false)
    (hstorable : call.storable = true) (hrun : call.run env w.db = .error f) (t : TableName)
    (v : Violation) : f.cause ≠ .schema t v := by
  intro hcause
  cases Call.refusal (by simp [hcause]) hrun with
  | register scope registration reg valid refused =>
    obtain ⟨hscope, hhost⟩ := Bool.and_eq_true_iff.mp ha.accepted
    refine refused.absurd hsound hclock ha.fresh valid hscope ?_
    rw [normalizeRegistration_out valid]
    exact storable_trimSpace hhost
  | session call s s' mem write refused =>
    have hle : s.registeredAt ≤ env.clock.s₀ := (hsound.registered s mem).trans hclock
    have hadmits : w.db.sessions.Admits (.replace s s') := by
      rcases write with rfl | rfl
      · exact admits_beatSession mem
      · exact admits_endedSession mem hle (by decide)
    exact RowWriteRefused.not_admits (w := .replace s s') refused hadmits
  | write call id writes performs refused =>
    have hadmitted := performs.admitted hsound hclock ha hcall hstorable
    obtain ⟨r, hr, hins⟩ := refused.of_admitted hadmitted (performs.idempotency_nil hcall)
    obtain ⟨scope, originalJobID, key, rfl⟩ := performs.of_replay hr
    obtain ⟨v', hv'⟩ := hins.1
    have hkey := validateIdempotencyKey_eq_nil (List.isEmpty_iff.mp ha.accepted)
    exact replay_identity_admitted ha.fresh hkey (answering_eq_error.mp hrun) v' hv'

end Calls

/-! ## Whole runs -/

/-- The rows a call is about to write to its job's tables are admitted, and no table
refuses it. -/
structure SchemaAgrees (w : World) (l : Label) : Prop where
  rows : ∀ id writes, Performs l.request.env w.db l.request.call id writes → writes.Admitted w.db
  accepted : ∀ e t v, l.outcome ≠ .error ⟨e, .schema t v⟩

/-- A step whose call is admissible, or a submission. -/
structure AcceptedStep (w : World) (l : Label) (w' : World) : Prop where
  step : Step w l w'
  admissible : l.request.call.submits = false → Admissible w.db l.request

/-- A step that the schema agrees with, or a submission. -/
structure AgreedStep (w : World) (l : Label) (w' : World) : Prop where
  step : Step w l w'
  agrees : l.request.call.submits = false → SchemaAgrees w l

section Agreement

variable {w₀ w w' : World} {trace : List Label} {l : Label}

theorem AcceptedStep.agreed (h : AcceptedStep w l w') (hstorable : l.request.call.storable = true)
    (hsound : Sound w) : AgreedStep w l w' := by
  refine ⟨h.step, fun hcall => ?_⟩
  have ha := h.admissible hcall
  have hclock := h.step.clock_le_sample
  constructor
  · intro id writes hperf
    exact hperf.admitted hsound hclock ha hcall hstorable
  · intro e t v hout
    exact Call.not_refused hsound h.step.clock_le_sample ha hcall hstorable
      (h.step.failed rfl hout).1 t v rfl

/-- In every run of accepted calls in which an object reported with a success comes
with its SHA-256 and an inline result is a document that `jsonb` takes, the schema agrees
with every step. -/
theorem schema_agrees (hinit : Initial w₀) (hrun : Run AcceptedStep w₀ trace w)
    (hstorable : ∀ l ∈ trace, l.request.call.storable = true) : Run AgreedStep w₀ trace w := by
  refine ((hrun.restrict hstorable).strengthen (P := Sound) ?_ hinit.sound).1
  intro s l t hsound hstep
  exact ⟨hstep.1.agreed hstep.2 hsound, hstep.1.step.sound hsound⟩

end Agreement

/-! ## On the quiet database -/

/-- Every call of the list is admissible where it is made, or is a submission. -/
def World.accepts (w : World) : List Request → Bool
  | [] => true
  | req :: rest => (req.call.submits || decide (Admissible w.db req)) && (w.step req).2.accepts rest

theorem World.exec_accepted {reqs : List Request} {w : World} (hclock : Clocked w.clock reqs)
    (h : w.accepts reqs = true) : Run AcceptedStep w (w.exec reqs).1 (w.exec reqs).2 := by
  induction reqs generalizing w with
  | nil => exact .nil w
  | cons req rest ih =>
    obtain ⟨hnow, hrest⟩ := hclock
    obtain ⟨hreq, htail⟩ := Bool.and_eq_true_iff.mp h
    refine .cons ⟨w.step_step hnow, ?_⟩ (ih (by rw [World.step_clock]; exact hrest) htail)
    rw [w.step_request]
    intro hcall
    simpa [hcall] using hreq

/-- A success that reports an object under the given checksum. -/
def sampleObject (checksum : String) : Request :=
  ⟨envAt 5 0 0, .succeed "tenant" sampleFence (some ⟨.object, none, "bucket", "key", 1, checksum⟩)⟩

/-- A success that reports an inline result. -/
def sampleInline (body : String) : Request :=
  ⟨envAt 5 0 0, .succeed "tenant" sampleFence (some ⟨.inline, some body, "", "", 8, ""⟩)⟩

/-- The sample run up to a success. -/
def sampleStored (report : Request) : List Request := sampleStart ++ [report]

theorem schema_agrees_sample :
    Run AgreedStep quiet (quiet.exec (sampleStored (sampleObject
        "0123456789abcdef0123456789abcdef0123456789abcdef0123456789abcdef"))).1
      (quiet.exec (sampleStored (sampleObject
        "0123456789abcdef0123456789abcdef0123456789abcdef0123456789abcdef"))).2 :=
  schema_agrees quiet_initial (World.exec_accepted (by decide) (by decide +kernel))
    (by decide +kernel)

/-- A run of accepted calls whose last one a table refuses. -/
theorem refused_report {report : Request} (h : Clocked quiet.clock (sampleStored report) ∧
    quiet.accepts (sampleStored report) = true ∧
    ∃ l ∈ (quiet.exec (sampleStored report)).1, l.request.call.submits = false ∧
      l.outcome = .error ⟨.failed "insert result", .schema .results .check⟩) :
    Run AcceptedStep quiet (quiet.exec (sampleStored report)).1
        (quiet.exec (sampleStored report)).2 ∧
      ¬ Run AgreedStep quiet (quiet.exec (sampleStored report)).1
        (quiet.exec (sampleStored report)).2 := by
  obtain ⟨hclock, haccepts, l, hl, hcall, hout⟩ := h
  constructor
  · exact World.exec_accepted hclock haccepts
  · intro hrun
    obtain ⟨-, -, w, w', -, -, hstep, -⟩ := hrun.exists_step_of_mem hl
    exact (hstep.agrees hcall).accepted _ _ _ hout

/-- `Validate` accepts the checksum `abc`, and an inline string of one U+0000, and both
runs are of accepted calls; the check on `results.checksum_sha256` refuses the one
success, and the type of `results.inline_body` the other. -/
theorem undigested_result_refused :
    (Run AcceptedStep quiet (quiet.exec (sampleStored (sampleObject "abc"))).1
        (quiet.exec (sampleStored (sampleObject "abc"))).2 ∧
      ¬ Run AgreedStep quiet (quiet.exec (sampleStored (sampleObject "abc"))).1
        (quiet.exec (sampleStored (sampleObject "abc"))).2) ∧
    Run AcceptedStep quiet (quiet.exec (sampleStored (sampleInline "\"\\u0000\""))).1
        (quiet.exec (sampleStored (sampleInline "\"\\u0000\""))).2 ∧
      ¬ Run AgreedStep quiet (quiet.exec (sampleStored (sampleInline "\"\\u0000\""))).1
        (quiet.exec (sampleStored (sampleInline "\"\\u0000\""))).2 :=
  ⟨refused_report (by decide +kernel), refused_report (by decide +kernel)⟩

end TaskForge
