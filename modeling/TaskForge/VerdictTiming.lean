/-
The reconciler's verdict does not depend on when it is reached.

Two scans may close an executing attempt: one under a usable lease, once the
deadline has come; one after the lease has lapsed. They have different
preconditions and run at any time, in any number of replicas. What they record is
decided all the same by three columns that none of them writes: a cancellation
goes first, then a deadline at or before the end of the lease, then abandonment.
The first scan acts only between the deadline and the end of the lease, and there
the deadline is before the end; that is why the two cannot disagree.

As long as nobody starts, reports on, renews or cancels the attempt, a run closes
it at most once, with that verdict, and every other step about it changes no row.
-/
import TaskForge.Permanence

open Relational Fallible

namespace TaskForge

/-! ## Schedules -/

/-- The calls a schedule leaves out: a start, a report or a renewal on the attempt,
and a cancellation of its job. -/
def Call.disturbs (a : JobAttempt) : Call → Bool
  | .start _ fence => fence.attemptID == a.id
  | .renewLease _ req => req.fence.attemptID == a.id
  | .succeed _ fence _ => fence.attemptID == a.id
  | .fail _ report => report.fence.attemptID == a.id
  | .acknowledgeCancellation _ ack => ack.fence.attemptID == a.id
  | .requestCancel _ jobID => jobID == a.jobID
  | _ => false

/-- A run of the reconciler and of everyone who leaves the attempt alone. -/
def Undisturbed (a : JobAttempt) (trace : List Label) : Prop :=
  ∀ x ∈ trace, x.request.call.disturbs a = false

/-- The reconciler's calls about the attempt and its lease. -/
def Call.reconciles (a : JobAttempt) (l : Lease) : Call → Bool
  | .reconcileDueTimeout attemptID _ => attemptID == a.id
  | .reconcileExpiredLease leaseID _ => leaseID == l.id
  | _ => false

/-- What the reconciler is to record about an executing attempt. -/
def reconcilerVerdict (j : Job) (a : JobAttempt) (l : Lease) : AttemptStatus × FailureClass :=
  if j.status = .cancelRequested then (.canceled, .canceled)
  else if a.timeoutAt.any fun t => decide (t ≤ l.expiresAt) then (.timedOut, .timedOut)
  else (.abandoned, .abandoned)

/-- A step that leaves the attempt's row as it is, and every row if it is about the
attempt. -/
structure Spares (a : JobAttempt) (l : Lease) (w : World) (x : Label) (w' : World) : Prop where
  step : Step w x w'
  attempt : ∀ b : JobAttempt, b.id = a.id → (b ∈ w'.db.attempts.rows ↔ b ∈ w.db.attempts.rows)
  reconciler : x.request.call.reconciles a l = true → w'.db = w.db

/-- `a` is executing, as the attempt of `j` under the lease `l`. -/
structure Executes (j : Job) (a : JobAttempt) (l : Lease) : Prop where
  job : j.id = a.jobID
  lease : l.attemptID = a.id
  lease_job : l.jobID = a.jobID
  attempt : isExecutingAttemptStatus a.status = true

/-- The three rows of the run are stored. -/
structure Stands (w : World) (j : Job) (a : JobAttempt) (l : Lease) : Prop where
  job : j ∈ w.db.jobs.rows
  attempt : a ∈ w.db.attempts.rows
  lease : l ∈ w.db.leases.rows

/-- The attempt is closed with verdict `v`, and its lease with it. -/
structure Recorded (w : World) (a : JobAttempt) (l : Lease) (v : AttemptStatus × FailureClass) :
    Prop where
  attempt : ∃ a' ∈ w.db.attempts.rows, a'.id = a.id ∧ a'.status = v.1 ∧ a'.failureClass = some v.2
  lease : ∃ l' ∈ w.db.leases.rows, l'.id = l.id ∧ l'.status ≠ .active

section Verdicts

variable {j : Job} {a : JobAttempt} {l : Lease}

theorem reconcilerVerdict_canceled (h : j.status = .cancelRequested) :
    reconcilerVerdict j a l = (.canceled, .canceled) := if_pos h

theorem reconcilerVerdict_timedOut (h : isExecutingJobStatus j.status = true)
    (ho : OutlivedDeadline a l) : reconcilerVerdict j a l = (.timedOut, .timedOut) := by
  obtain ⟨t, ht, hle⟩ := ho
  have hc : j.status ≠ .cancelRequested := by
    intro hs
    rw [hs] at h
    cases h
  rw [reconcilerVerdict, if_neg hc, if_pos]
  rw [ht, Option.any_some]
  exact decide_eq_true hle

theorem reconcilerVerdict_abandoned (h : isExecutingJobStatus j.status = true)
    (ho : ¬ OutlivedDeadline a l) : reconcilerVerdict j a l = (.abandoned, .abandoned) := by
  have hc : j.status ≠ .cancelRequested := by
    intro hs
    rw [hs] at h
    cases h
  rw [reconcilerVerdict, if_neg hc, if_neg]
  intro hany
  obtain ⟨t, ht, hle⟩ := (Option.any_eq_true _ _).mp hany
  exact ho ⟨t, ht, of_decide_eq_true hle⟩

/-- Whatever the verdict, the attempt is over. -/
theorem reconcilerVerdict_closed :
    isExecutingAttemptStatus (reconcilerVerdict j a l).1 = false := by
  unfold reconcilerVerdict
  split_ifs <;> rfl

/-- A timeout under a usable lease is due between the deadline and the end of the
lease. -/
theorem TimeoutDue.outlived {now : Int} (h : TimeoutDue now j a l) : OutlivedDeadline a l := by
  obtain ⟨t, ht, hle⟩ := h.overdue
  exact ⟨t, ht, hle.trans h.unexpired.le⟩

end Verdicts

/-! ## Steps -/

section Steps

variable {w w' : World} {x : Label} {j : Job} {a : JobAttempt} {l : Lease}
variable {b : JobAttempt} {l' : Lease} {env : Env} {call : Call} {id : UUID} {writes : Writes}
  {v : AttemptStatus × FailureClass}

/-- A job has one executing attempt at most. -/
theorem Sound.executing_unique (h : Sound w) (ha : a ∈ w.db.attempts.rows)
    (hb : b ∈ w.db.attempts.rows) (hjob : b.jobID = a.jobID)
    (hexa : isExecutingAttemptStatus a.status = true)
    (hexb : isExecutingAttemptStatus b.status = true) : b = a := by
  obtain ⟨j, hj, hid⟩ := h.job_of_attempt ha
  have hphase := h.phase hj
  obtain ⟨past, pl, m, hrun⟩ := hphase.run_of_executing
    (mem_caseFile_attempts.mpr ⟨ha, hid.symm⟩) hexa
  obtain ⟨past', pl', m', hrun'⟩ := hphase.run_of_executing
    (mem_caseFile_attempts.mpr ⟨hb, hjob.trans hid.symm⟩) hexb
  -- Both stand at the end of the one ledger.
  have hlast := hrun'.attempts.symm.trans hrun.attempts
  exact (List.append_inj' hlast rfl).2 |> List.singleton_inj.mp

/-- The rows a binding finds for the executing attempt are the rows that stand. -/
theorem Stands.binding (h : Stands w j a l) (he : Executes j a l) {scope : String} {fence : Fence}
    {s : WorkerSession} {j' : Job} (hA : Authority w.db scope fence s j' a l') :
    j' = j ∧ l' = l := by
  constructor
  · exact w.db.job_eq_of_id hA.job_mem h.job (by rw [hA.job_id, ← hA.attempt_job, he.job])
  · exact w.db.lease_eq_of_attempt hA.lease_mem h.lease
      (by rw [hA.lease_attempt, ← hA.attempt_id, he.lease])

/-- A step that keeps the attempt's one row spares it, unless it is about it. -/
theorem Spares.of_kept (hs : Step w x w') (hid : b.id = a.id) (hb : b ∈ w.db.attempts.rows)
    (hb' : b ∈ w'.db.attempts.rows) (hrec : x.request.call.reconciles a l = true → w'.db = w.db) :
    Spares a l w x w' := by
  refine ⟨hs, fun c hc => ⟨fun hmem => ?_, fun hmem => ?_⟩, hrec⟩
  · rw [w'.db.attempt_eq_of_id hmem hb' (hc.trans hid.symm)]
    exact hb
  · rw [w.db.attempt_eq_of_id hmem hb (hc.trans hid.symm)]
    exact hb'

/-- The reconciler's writes about an attempt are about its job. -/
theorem Performs.of_reconciles {db : DB} (h : Performs env db call id writes)
    (ha : a ∈ db.attempts.rows) (hl : l ∈ db.leases.rows) (hbound : l.attemptID = a.id)
    (hrec : call.reconciles a l = true) : id = a.jobID := by
  cases h with
  | timeOut stats s j' a' l' d binding due decision =>
    have ha' : a' = a := db.attempt_eq_of_id binding.attempt_mem ha (beq_iff_eq.mp hrec)
    rw [← ha', binding.attempt_job, binding.job_id]
  | expire stats s j' a' l' writes binding lapsed verdict =>
    have hl' : l' = l := db.lease_eq_of_id binding.lease_mem hl (beq_iff_eq.mp hrec)
    have ha' : a' = a := db.attempt_eq_of_id binding.attempt_mem ha (by
      rw [binding.attempt_id, ← hbound, ← hl']
      rfl)
    rw [← ha', binding.attempt_job, binding.job_id]
  | _ => cases hrec

/-- An attempt that writes closed is recorded. -/
theorem Writes.Applied.recorded (h : writes.Applied w.db w'.db) {a' : JobAttempt}
    (hst : Stands w j a l) (ha : writes.attempt = .replace a a')
    (hl : writes.lease = .replace l l') (hid : a'.id = a.id)
    (hv : a'.status = v.1 ∧ a'.failureClass = some v.2) (hlid : l'.id = l.id)
    (hls : l'.status ≠ .active) : Recorded w' a l v := by
  have hmem : a' ∈ w'.db.attempts.rows := by
    rw [h.attempts, ha]
    exact mem_replaceRow.mpr (.inr ⟨rfl, hst.attempt⟩)
  exact ⟨⟨a', hmem, hid, hv⟩, l', h.lease_mem hl hst.lease, hlid, hls⟩

/-- **What can be written about an executing job that is left alone** is the
reconciler's verdict on its attempt. -/
theorem Performs.verdict (hperf : Performs env w.db call id writes)
    (happ : writes.Applied w.db w'.db) (h : Sound w) (hst : Stands w j a l) (he : Executes j a l)
    (hcall : call.disturbs a = false) (habout : id = j.id) :
    call.reconciles a l = true ∧ Recorded w' a l (reconcilerVerdict j a l) := by
  have hworking : isExecutingJobStatus j.status = true ∨ j.status = .cancelRequested := by
    obtain ⟨past, pl, m, hrun⟩ := (h.phase hst.job).run_of_executing
      (mem_caseFile_attempts.mpr ⟨hst.attempt, he.job.symm⟩) he.attempt
    exact hrun.status.executing
  have hjob : (w.db.caseFile j.id).job = some j := caseFile_job_of_mem hst.job
  -- A binding of the job, for an attempt that executes, is for this attempt.
  have hsame : ∀ {scope fence s j' a' l'}, Authority w.db scope fence s j' a' l' → j'.id = j.id →
      isExecutingAttemptStatus a'.status = true → a' = a := by
    intro scope fence s j' a' l' hA hj' hex'
    exact h.executing_unique hst.attempt hA.attempt_mem
      (by rw [hA.attempt_job, ← hA.job_id, hj', he.job]) he.attempt hex'
  -- So a report that writes is a report on it, and that was left out.
  have hreport : ∀ {scope fence s j' a' l'}, Authority w.db scope fence s j' a' l' → j'.id = j.id →
      isExecutingAttemptStatus a'.status = true → ¬ (fence.attemptID == a.id) = false := by
    intro scope fence s j' a' l' hA hj' hex'
    rw [← hA.attempt_id, hsame hA hj' hex', beq_self_eq_true]
    decide
  cases hperf with
  | submit | replay =>
    have hnone : (w.db.caseFile env.id₁).job = none := unborn_of_insert happ rfl
    rw [habout, hjob] at hnone
    cases hnone
  | cancel scope j' target mem scope_eq cancelable =>
    exact absurd (habout.trans he.job) (beq_eq_false_iff_ne.mp hcall)
  | promote j' mem promotable =>
    rw [w.db.job_eq_of_id mem hst.job habout] at promotable
    rcases hworking with hs | hs
    · cases hj : j.status <;> rw [hj] at hs <;> cases hs <;> simp [isPromotable, hj] at promotable
    · simp [isPromotable, hs] at promotable
  | renotify j' after mem stranded =>
    rw [w.db.job_eq_of_id mem hst.job habout] at stranded
    simp only [isStranded, Bool.and_eq_true, beq_iff_eq] at stranded
    rw [stranded.1.1.1] at hworking
    rcases hworking with hs | hs <;> cases hs
  | claim scope req s j' ready =>
    obtain ⟨⟨-, -, hq, -⟩, -⟩ := isEligible_eq_true.mp ready.eligible
    rw [w.db.job_eq_of_id ready.job_mem hst.job habout] at hq
    rw [hq] at hworking
    rcases hworking with hs | hs <;> cases hs
  | start scope fence s j' a' l' binding live job attempt =>
    exact absurd hcall (hreport binding habout (by rw [attempt]; rfl))
  | renew scope req s j' a' l' binding ready | acknowledge scope ack s j' a' l' binding ready =>
    exact absurd hcall (hreport binding habout ready.attempt)
  | succeed scope fence result s j' a' l' binding ready
  | fail scope report s j' a' l' d binding ready =>
    exact absurd hcall (hreport binding habout (by rw [ready.attempt]; rfl))
  | timeOut stats s j' a' l' d binding due decision =>
    obtain rfl : a' = a := hsame binding habout (by rw [due.attempt]; rfl)
    obtain ⟨rfl, rfl⟩ := hst.binding he binding
    refine ⟨beq_self_eq_true a'.id, happ.recorded hst rfl rfl rfl ?_ rfl
      (by simp [closedLease, timeoutOutcome])⟩
    rw [reconcilerVerdict_timedOut (by rw [due.job]; rfl) due.outlived]
    exact ⟨rfl, rfl⟩
  | expire stats s j' a' l' writes binding lapsed verdict =>
    obtain rfl : a' = a := hsame binding habout lapsed.attempt
    obtain ⟨rfl, rfl⟩ := hst.binding he binding
    refine ⟨beq_self_eq_true l'.id, ?_⟩
    cases verdict with
    | canceled job =>
      refine happ.recorded hst rfl rfl rfl ?_ rfl (by simp [closedLease])
      rw [reconcilerVerdict_canceled job]
      exact ⟨rfl, rfl⟩
    | timedOut d job outlived decision =>
      refine happ.recorded hst rfl rfl rfl ?_ rfl (by simp [closedLease, timeoutOutcome])
      rw [reconcilerVerdict_timedOut job outlived]
      exact ⟨rfl, rfl⟩
    | abandoned d job early decision =>
      refine happ.recorded hst rfl rfl rfl ?_ rfl (by simp [closedLease, abandonedOutcome])
      rw [reconcilerVerdict_abandoned job early]
      exact ⟨rfl, rfl⟩

/-- While the attempt stands, a step that leaves it alone spares it, or is the
reconciler's and closes it. -/
theorem Stands.step (hst : Stands w j a l) (h : Sound w) (he : Executes j a l) (hs : Step w x w')
    (hcall : x.request.call.disturbs a = false) :
    (Spares a l w x w' ∧ Stands w' j a l) ∨
      ((Step w x w' ∧ x.request.call.reconciles a l = true) ∧
        Recorded w' a l (reconcilerVerdict j a l)) := by
  -- Where the job's case file is as it was, the three rows are.
  have hkept : w'.db.caseFile j.id = w.db.caseFile j.id →
      (x.request.call.reconciles a l = true → w'.db = w.db) →
      Spares a l w x w' ∧ Stands w' j a l := by
    intro hcf hrec
    have hj : (w'.db.caseFile j.id).job = some j := hcf ▸ caseFile_job_of_mem hst.job
    have ha : a ∈ (w'.db.caseFile j.id).attempts :=
      hcf ▸ mem_caseFile_attempts.mpr ⟨hst.attempt, he.job.symm⟩
    have hl : l ∈ (w'.db.caseFile j.id).leases :=
      hcf ▸ mem_caseFile_leases.mpr ⟨hst.lease, he.lease_job.trans he.job.symm⟩
    have hmem := (mem_caseFile_attempts.mp ha).1
    exact ⟨.of_kept hs rfl hst.attempt hmem hrec, (caseFile_job_eq_some.mp hj).1, hmem,
      (mem_caseFile_leases.mp hl).1⟩
  have hcommit := hs.commit
  generalize x.request.call = call at hcommit hcall hkept ⊢
  cases hcommit with
  | unchanged call same => exact .inl (hkept (by rw [same]) fun _ => same)
  | registered scope registration reg wid valid only workers sessions =>
    exact .inl (hkept (only.caseFile j.id) (fun hrec => by cases hrec))
  | beat scope req s session scope_eq healthy moved | staled s staleAfter stale moved =>
    exact .inl (hkept (moved.only.caseFile j.id) (fun hrec => by cases hrec))
  | wrote call id writes performs applied =>
    by_cases habout : id = j.id
    · obtain ⟨hrec, hrecorded⟩ := performs.verdict applied h hst he hcall habout
      exact .inr ⟨⟨hs, hrec⟩, hrecorded⟩
    · have hlawful := performs.lawful fun _ hw => unborn_of_insert applied hw
      refine .inl (hkept (caseFile_applied_of_ne applied hlawful.about (Ne.symm habout)) ?_)
      intro hrec
      have hjob := performs.of_reconciles hst.attempt hst.lease he.lease hrec
      exact absurd (hjob.trans he.job.symm) habout

/-- Once the attempt is closed, every step spares it. -/
theorem Recorded.step (hr : Recorded w a l v) (h : Sound w)
    (hv : isExecutingAttemptStatus v.1 = false) (hs : Step w x w') :
    Spares a l w x w' ∧ Recorded w' a l v := by
  obtain ⟨⟨b, hb, hbid, hbstatus, hbclass⟩, m, hm, hmid, hmstatus⟩ := hr
  have hclosed : isExecutingAttemptStatus b.status = false := by rw [hbstatus]; exact hv
  have hb' := (hs.permanent h).attempt b hb hclosed
  have hm' := (hs.permanent h).lease m hm hmstatus
  refine ⟨.of_kept hs hbid hb hb' ?_, ⟨b, hb', hbid, hbstatus, hbclass⟩, m, hm', hmid, hmstatus⟩
  intro hrec
  have hcommit := hs.commit
  generalize x.request.call = call at hcommit hrec
  cases hcommit with
  | unchanged call same => exact same
  | wrote call id writes performs applied =>
    cases performs with
    | timeOut stats s j' a' l' d binding due decision =>
      have hab : a' = b := w.db.attempt_eq_of_id binding.attempt_mem hb
        ((beq_iff_eq.mp hrec).trans hbid.symm)
      rw [← hab, due.attempt] at hclosed
      cases hclosed
    | expire stats s j' a' l' writes binding lapsed verdict =>
      have hlm : l' = m := w.db.lease_eq_of_id binding.lease_mem hm
        ((beq_iff_eq.mp hrec).trans hmid.symm)
      exact absurd (hlm ▸ lapsed.active) hmstatus
    | _ => cases hrec
  | _ => cases hrec

end Steps

/-! ## Runs -/

section Runs

variable {w : World} {a : JobAttempt}

/-- An executing attempt of a sound state, with its job and its lease. -/
theorem Sound.standing (h : Sound w) (ha : a ∈ w.db.attempts.rows)
    (hex : isExecutingAttemptStatus a.status = true) :
    ∃ j l, Stands w j a l ∧ Executes j a l := by
  obtain ⟨j, hj, hid⟩ := h.job_of_attempt ha
  obtain ⟨past, pl, l, hrun⟩ := (h.phase hj).run_of_executing
    (mem_caseFile_attempts.mpr ⟨ha, hid.symm⟩) hex
  have hl : l ∈ (w.db.caseFile j.id).leases := by
    rw [hrun.leases]
    exact List.mem_concat_self
  exact ⟨j, l, ⟨hj, ha, (mem_caseFile_leases.mp hl).1⟩, hid, hrun.bound.lease_attempt,
    hrun.bound.lease_job.trans hid, hex⟩

/-- One step of the run, the reconciler's, closes the attempt with verdict `v`, and
every other step spares it. -/
def ClosedOnce (j : Job) (a : JobAttempt) (l : Lease) (v : AttemptStatus × FailureClass)
    (w : World) (trace : List Label) (w' : World) : Prop :=
  ∃ before x after w₁ w₂, trace = before ++ x :: after ∧
    Runs.Run (Spares a l) w before w₁ ∧ Stands w₁ j a l ∧
    Step w₁ x w₂ ∧ x.request.call.reconciles a l = true ∧ Recorded w₂ a l v ∧
    Runs.Run (Spares a l) w₂ after w' ∧ Recorded w' a l v

/-- **A run that leaves an executing attempt alone** spares it throughout, or closes it
once. -/
theorem Stands.run {j : Job} {l : Lease} (hst : Stands w j a l) (h : Sound w)
    (he : Executes j a l) {trace : List Label} {w' : World} (hrun : Execution w trace w')
    (hun : Undisturbed a trace) :
    (Runs.Run (Spares a l) w trace w' ∧ Stands w' j a l) ∨
      ClosedOnce j a l (reconcilerVerdict j a l) w trace w' := by
  have honce := hrun.once (P := fun v => Sound v ∧ Stands v j a l)
    (Q := fun v => Sound v ∧ Recorded v a l (reconcilerVerdict j a l))
    (K := fun x => x.request.call.disturbs a = false) (I := Spares a l)
    (F := fun v x v' => Step v x v' ∧ x.request.call.reconciles a l = true)
    (fun ⟨hsound, hstands⟩ hcall hstep =>
      (hstands.step hsound he hstep hcall).imp
        (fun hspared => ⟨hspared.1, hstep.sound hsound, hspared.2⟩)
        (fun hclosed => ⟨hclosed.1, hstep.sound hsound, hclosed.2⟩))
    (fun ⟨hsound, hrecorded⟩ hstep =>
      ⟨(hrecorded.step hsound reconcilerVerdict_closed hstep).1, hstep.sound hsound,
        (hrecorded.step hsound reconcilerVerdict_closed hstep).2⟩)
    ⟨h, hst⟩ hun
  rcases honce with ⟨hspared, -, hstands⟩ |
    ⟨before, x, after, w₁, w₂, htrace, hbefore, ⟨-, hst₁⟩, hfires, ⟨-, hrec₂⟩, hafter, -, hrec⟩
  · exact .inl ⟨hspared, hstands⟩
  · exact .inr ⟨before, x, after, w₁, w₂, htrace, hbefore, hst₁, hfires.1, hfires.2, hrec₂, hafter,
      hrec⟩

/-- So if the attempt is closed at the end of the run, it is closed with the verdict. -/
theorem Stands.verdict_of_run {j : Job} {l : Lease} (hst : Stands w j a l) (h : Sound w)
    (he : Executes j a l) {trace : List Label} {w' : World} (hrun : Execution w trace w')
    (hun : Undisturbed a trace) {b : JobAttempt} (hb : b ∈ w'.db.attempts.rows) (hbid : b.id = a.id)
    (hclosed : isExecutingAttemptStatus b.status = false) :
    b.status = (reconcilerVerdict j a l).1 ∧ b.failureClass = some (reconcilerVerdict j a l).2 := by
  rcases hst.run h he hrun hun with
    ⟨-, hstands⟩ | ⟨before, x, after, w₁, w₂, -, -, -, -, -, -, -, ⟨c, hc, hcid, hverdict⟩, -⟩
  · rw [w'.db.attempt_eq_of_id hb hstands.attempt hbid, he.attempt] at hclosed
    cases hclosed
  · rw [w'.db.attempt_eq_of_id hb hc (hbid.trans hcid.symm)]
    exact hverdict

/-- The reconciler's verdict on an executing attempt, over every run that leaves the
attempt alone: the run spares the attempt throughout, and it stands as it was, or
closes it once, with the verdict its rows had from the start. So any two such runs
that close it record the same. -/
theorem verdict_timeless (h : Reachable w) (ha : a ∈ w.db.attempts.rows)
    (hex : isExecutingAttemptStatus a.status = true) :
    ∃ j ∈ w.db.jobs.rows, ∃ l ∈ w.db.leases.rows, Executes j a l ∧
      (∀ trace w', Execution w trace w' → Undisturbed a trace →
        (Runs.Run (Spares a l) w trace w' ∧ Stands w' j a l) ∨
          ClosedOnce j a l (reconcilerVerdict j a l) w trace w') ∧
      ∀ t₁ w₁ t₂ w₂, Execution w t₁ w₁ → Undisturbed a t₁ → Execution w t₂ w₂ →
        Undisturbed a t₂ → ∀ a₁ ∈ w₁.db.attempts.rows, ∀ a₂ ∈ w₂.db.attempts.rows,
        a₁.id = a.id → a₂.id = a.id → isExecutingAttemptStatus a₁.status = false →
        isExecutingAttemptStatus a₂.status = false →
        a₁.status = a₂.status ∧ a₁.failureClass = a₂.failureClass := by
  obtain ⟨j, l, hst, he⟩ := h.sound.standing ha hex
  refine ⟨j, hst.job, l, hst.lease, he, ?_, ?_⟩
  · intro trace w' hrun hun
    exact hst.run h.sound he hrun hun
  · intro t₁ w₁ t₂ w₂ hrun₁ hun₁ hrun₂ hun₂ a₁ ha₁ a₂ ha₂ hid₁ hid₂ hc₁ hc₂
    have hv₁ := hst.verdict_of_run h.sound he hrun₁ hun₁ ha₁ hid₁ hc₁
    have hv₂ := hst.verdict_of_run h.sound he hrun₂ hun₂ ha₂ hid₂ hc₂
    rw [hv₁.1, hv₁.2, hv₂.1, hv₂.2]
    exact ⟨rfl, rfl⟩

end Runs

/-- Three looks at the sample attempt, by any replicas: one for a deadline that has
not come, and two for the lease, long after it lapsed. -/
def sampleReplicas : List Request :=
  [⟨envAt 30000010 30 0, .reconcileDueTimeout 4 ⟨0, 0, 0, 0, 0, 0, 0, 0⟩⟩,
    ⟨envAt 70000000 31 0, .reconcileExpiredLease 5 ⟨0, 0, 0, 0, 0, 0, 0, 0⟩⟩,
    ⟨envAt 80000000 32 0, .reconcileExpiredLease 5 ⟨0, 0, 0, 0, 0, 0, 0, 0⟩⟩]

/-- The lease ended before the deadline, so the attempt is abandoned, though the
deadline has passed by the time anyone looks. -/
theorem verdict_timeless_sample :
    ((quiet.exec sampleStart).2.exec sampleReplicas).2.db.attempts.rows.map
        (fun a => (a.status, a.failureClass)) = [(.abandoned, some .abandoned)] ∧
      ∃ j a l, ClosedOnce j a l (reconcilerVerdict j a l) (quiet.exec sampleStart).2
        ((quiet.exec sampleStart).2.exec sampleReplicas).1
        ((quiet.exec sampleStart).2.exec sampleReplicas).2 := by
  obtain ⟨hend, ⟨a, ha, hex⟩, hclock⟩ :
      ((quiet.exec sampleStart).2.exec sampleReplicas).2.db.attempts.rows.map
        (fun a => (a.status, a.failureClass)) = [(.abandoned, some .abandoned)] ∧
      (∃ a ∈ (quiet.exec sampleStart).2.db.attempts.rows,
        isExecutingAttemptStatus a.status = true) ∧
      Clocked (quiet.exec sampleStart).2.clock sampleReplicas := by decide +kernel
  refine ⟨hend, ?_⟩
  obtain ⟨j, -, l, -, -, hruns, -⟩ :=
    verdict_timeless (quiet_reachable (by decide : Clocked 0 sampleStart)) ha hex
  have hun : Undisturbed a ((quiet.exec sampleStart).2.exec sampleReplicas).1 := by
    intro x hx
    have hreq := World.mem_exec_requests hx
    simp only [sampleReplicas, List.mem_cons, List.not_mem_nil, or_false] at hreq
    rcases hreq with hreq | hreq | hreq <;> rw [hreq] <;> rfl
  rcases hruns _ _ (World.exec_run hclock) hun with ⟨-, hstands⟩ | honce
  · -- The attempt does not stand at the end: no row there executes.
    have hmem := List.mem_map_of_mem (f := fun a => (a.status, a.failureClass)) hstands.attempt
    rw [hend, List.mem_singleton] at hmem
    rw [(Prod.mk.inj hmem).1] at hex
    cases hex
  · exact ⟨j, a, l, honce⟩

end TaskForge
