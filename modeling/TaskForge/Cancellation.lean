/-
Cancellation is final.

Once `RequestCancel` has succeeded, the job's stamp is set for good and one move
is left to it: the completion of the cancellation, by the worker's acknowledgment
or by the reconciler, which closes the open attempt and adds nothing. Every other
transaction's guard excludes both cancellation statuses, whatever the attempt's
own status is, and that is the whole argument: it is made once, over the lawful
moves.
-/
import TaskForge.AuthoritySafety

open Relational Fallible

namespace TaskForge

/-! ## A canceled case file -/

/-- A cancellation of the job was requested at `t`. -/
def Canceling (t : Int) (cf : CaseFile) : Prop :=
  ∃ j, cf.job = some j ∧ (j.status = .cancelRequested ∨ j.status = .canceled) ∧
    j.cancelRequestedAt = some t

/-- Nothing was added to the case file. -/
structure NotGrown (cf cf' : CaseFile) : Prop where
  attempts : cf'.attempts.map JobAttempt.id = cf.attempts.map JobAttempt.id
  leases : cf'.leases.map Lease.id = cf.leases.map Lease.id
  events : cf'.events = cf.events
  dlq : cf'.dlq = cf.dlq
  results : cf'.results = cf.results

theorem NotGrown.refl (cf : CaseFile) : NotGrown cf cf := ⟨rfl, rfl, rfl, rfl, rfl⟩

theorem NotGrown.trans {cf cf' cf'' : CaseFile} (h : NotGrown cf cf') (h' : NotGrown cf' cf'') :
    NotGrown cf cf'' :=
  ⟨h'.attempts.trans h.attempts, h'.leases.trans h.leases, h'.events.trans h.events,
    h'.dlq.trans h.dlq, h'.results.trans h.results⟩

section Moves

variable {env : Env} {db db' : DB} {id : UUID} {w : Writes} {t : Int} {j : Job}

/-- **The one move left.** A job whose cancellation was requested can only have it
completed. -/
theorem Lawful.of_canceling (h : Lawful env db id w) (hj : (db.caseFile id).job = some j)
    (hs : j.status = .cancelRequested ∨ j.status = .canceled) :
    ∃ o ls a l, w = cancellationWrites o ls env.clock.s₀ j a l := by
  -- Any other move has found the job in a status of its own.
  have hstatus : ∀ {k : Job}, (db.caseFile id).job = some k →
      k.status = .cancelRequested ∨ k.status = .canceled := by
    intro k hk
    rw [hj, Option.some.injEq] at hk
    rw [← hk]
    exact hs
  cases h with
  | submit scope key req trace unborn new queue | replay scope key original unborn new ready =>
    rw [hj] at unborn
    cases unborn
  | cancel k target job cancelable =>
    rcases hstatus job with hk | hk <;> rw [hk] at cancelable <;> cases cancelable
  | promote k job promotable =>
    rcases hstatus job with hk | hk <;> simp [isPromotable, hk] at promotable
  | renotify k after job stranded =>
    rcases hstatus job with hk | hk <;> simp [isStranded, hk] at stranded
  | claim scope req s k job ready =>
    obtain ⟨⟨-, -, hq, -⟩, -⟩ := isEligible_eq_true.mp ready.eligible
    rcases hstatus job with hk | hk <;> rw [hk] at hq <;> cases hq
  | start s k a l holds live job attempt =>
    rcases hstatus holds.job with hk | hk <;> rw [hk] at job <;> cases job
  | renew s k a l req holds ready =>
    have hex := ready.job
    rcases hstatus holds.job with hk | hk <;> rw [hk] at hex <;> cases hex
  | succeed scope result s k a l holds scope_eq ready =>
    have hrun := ready.job
    rcases hstatus holds.job with hk | hk <;> rw [hk] at hrun <;> cases hrun
  | finalize scope o d k a l holds scope_eq ends decision identity =>
    have hex := ends.rows.1
    rcases hstatus holds.job with hk | hk <;> rw [hk] at hex <;> cases hex
  | cancellation o ls k a l holds cancels identity =>
    have hk := holds.job
    rw [hj, Option.some.injEq] at hk
    rw [← hk]
    exact ⟨o, ls, a, l, rfl⟩

/-- A step keeps a requested cancellation, and adds nothing to its case file. -/
theorem Effect.canceling (h : Effect env db db') (hc : Canceling t (db.caseFile id)) :
    Canceling t (db'.caseFile id) ∧ NotGrown (db.caseFile id) (db'.caseFile id) := by
  cases h with
  | unchanged same =>
    rw [same]
    exact ⟨hc, .refl _⟩
  | sessions only kept workers owned =>
    rw [only.caseFile id]
    exact ⟨hc, .refl _⟩
  | move id' w lawful applied =>
    by_cases hid : id = id'
    · subst hid
      obtain ⟨j, hj, hs, hat⟩ := hc
      obtain ⟨o, ls, a, l, rfl⟩ := lawful.of_canceling hj hs
      rw [caseFile_applied applied lawful.about]
      refine ⟨⟨canceledJob env.clock.s₀ j, rfl, .inr rfl, hat⟩, ?_, ?_, ?_, ?_, ?_⟩
      · have hkeep : (canceledAttempt o env.clock.s₀ a).id = a.id := rfl
        exact map_replaceRow JobAttempt.id hkeep _
      · have hkeep : (closedLease ls env.clock.s₀ l).id = l.id := rfl
        exact map_replaceRow Lease.id hkeep _
      · exact List.append_nil _
      · exact List.append_nil _
      · exact List.append_nil _
    · rw [caseFile_applied_of_ne applied lawful.about hid]
      exact ⟨hc, .refl _⟩

end Moves

section Runs

variable {w w' : World} {l : Label} {trace : List Label} {id : UUID} {t : Int}
variable {env : Env} {db db' : DB} {scope : String} {fence : Fence}

theorem canceling_of_run (hrun : Execution w trace w') (hc : Canceling t (w.db.caseFile id)) :
    Canceling t (w'.db.caseFile id) :=
  hrun.invariant (P := fun v => Canceling t (v.db.caseFile id))
    (fun hv hstep => (hstep.effect.canceling hv).1) hc

theorem notGrown_of_run (hrun : Execution w trace w') (hc : Canceling t (w.db.caseFile id)) :
    NotGrown (w.db.caseFile id) (w'.db.caseFile id) :=
  hrun.related (P := fun v => Canceling t (v.db.caseFile id))
    (R := fun v v' => NotGrown (v.db.caseFile id) (v'.db.caseFile id)) (fun _ => .refl _)
    NotGrown.trans (fun hv hstep => (hstep.effect.canceling hv).1)
    (fun hv hstep => (hstep.effect.canceling hv).2) hc

/-- A cancellation that is answered leaves its job canceled or asked to stop, under
the stamp it answered with. -/
theorem requestCancel_canceling {r : CancelResult}
    (h : requestCancel env scope id db = .ok (r, db')) :
    ∃ t, r.cancelRequestedAt = some t ∧ Canceling t (db'.caseFile id) ∧
      ∃ j ∈ db'.jobs.rows, j.id = id ∧ j.scope = scope := by
  obtain ⟨j, hj, rfl, hscope, ⟨hs, rfl, rfl⟩ | ⟨target, htarget, rfl, happ⟩⟩ := requestCancel_eq_ok h
  · -- The schema stamps exactly the jobs in these two statuses.
    have hchecked := (db'.job_checked hj).cancellation
    have hsome : j.cancelRequestedAt.isSome = true := by
      rcases hs with hs | hs <;> simpa [Job.cancellationConsistent, hs] using hchecked
    obtain ⟨t, ht⟩ := Option.isSome_iff_exists.mp hsome
    exact ⟨t, ht, ⟨j, caseFile_job_of_mem hj, hs, ht⟩, j, hj, rfl, hscope⟩
  · have hnew : cancelledJob target env.clock.s₀ j ∈ db'.jobs.rows := by
      rw [happ.jobs]
      exact mem_replaceRow.mpr (.inr ⟨rfl, hj⟩)
    have hjob : (db'.caseFile j.id).job = some (cancelledJob target env.clock.s₀ j) :=
      caseFile_job_of_mem hnew
    refine ⟨env.clock.s₀, rfl, ⟨_, hjob, ?_, rfl⟩, _, hnew, rfl, hscope⟩
    cases hs : j.status <;> rw [hs] at htarget <;> cases htarget <;> simp [cancelledJob]

/-- A cancellation asked for again. -/
theorem requestCancel_again (env : Env) {j : Job} (hj : j ∈ db.jobs.rows)
    (hs : j.status = .cancelRequested ∨ j.status = .canceled)
    (hq : ∃ q ∈ db.queues.rows, q.name = j.queue) :
    requestCancel env j.scope j.id db = .ok (⟨j.id, j.status, j.cancelRequestedAt, true⟩, db) := by
  obtain ⟨q, hmem, hname⟩ := hq
  obtain ⟨q', hq'⟩ : ∃ q', (db.queues.rows.find? fun q => q.name == j.queue) = some q' := by
    rw [← Option.isSome_iff_exists, List.find?_isSome]
    exact ⟨q, hmem, by simp [hname]⟩
  rw [requestCancel, jobInScope_of_mem hj]
  simp only [lockQueue, hq', fetch, orFail, Option.elim, ok_bind, if_pos hs]
  rfl

/-- The reports that go with execution: all but the acknowledgment of a
cancellation. -/
def Call.working : Call → Bool
  | .start .. | .renewLease .. | .succeed .. | .fail .. => true
  | _ => false

/-- A report that goes with execution changes a row only while the job executes. -/
theorem Commit.job_executing {call : Call} (h : Commit env db db' call) (hchanged : db' ≠ db)
    (hworking : call.working = true) (hreport : call.report = some (scope, fence)) :
    ∃ s j a l, Authority db scope fence s j a l ∧ isExecutingJobStatus j.status = true := by
  cases h with
  | unchanged call same => exact absurd same hchanged
  | wrote call id w performs applied =>
    cases performs with
    | start scope' fence' s j a l binding live job attempt =>
      cases hreport
      exact ⟨s, j, a, l, binding, by rw [job]; rfl⟩
    | renew scope' req s j a l binding ready =>
      cases hreport
      exact ⟨s, j, a, l, binding, ready.job⟩
    | succeed scope' fence' result s j a l binding ready
    | fail scope' report s j a l d binding ready =>
      cases hreport
      exact ⟨s, j, a, l, binding, by rw [ready.job]; rfl⟩
    | _ => cases hworking
  | _ => cases hworking

/-- No report that goes with execution changes anything about a canceled job. -/
theorem Step.unchanged_of_canceling (hs : Step w l w') (hc : Canceling t (w.db.caseFile id))
    (hworking : l.request.call.working = true)
    (hreport : l.request.call.report = some (scope, fence))
    (hattempt : ∃ a ∈ w.db.attempts.rows, a.id = fence.attemptID ∧ a.jobID = id) :
    w'.db = w.db := by
  by_contra hchanged
  obtain ⟨s, j, a, m, hA, hex⟩ := hs.commit.job_executing hchanged hworking hreport
  obtain ⟨b, hb, hbid, hbjob⟩ := hattempt
  obtain ⟨k, hk, hstatus, -⟩ := hc
  obtain ⟨hkmem, hkid⟩ := caseFile_job_eq_some.mp hk
  -- The fence's attempt is the one given, so its job is the canceled one.
  have hba : b = a := w.db.attempt_eq_of_id hb hA.attempt_mem (hbid.trans hA.attempt_id.symm)
  have hkj : k = j := w.db.job_eq_of_id hkmem hA.job_mem (by
    rw [hkid, ← hbjob, hba, hA.attempt_job, hA.job_id])
  rw [← hkj] at hex
  rcases hstatus with hk | hk <;> rw [hk] at hex <;> cases hex

/-- Once `RequestCancel` has returned success, in every continuation: the job is
canceled or asked to stop, under the same stamp, which every repeated request
returns; a canceled job stays canceled; nothing is added to the job's case file;
and no start, renewal, success or failure on its attempts changes any row. -/
theorem cancellation_final {w₁ : World} {env : Env} {scope : String} {r : CancelResult}
    (h : Reachable w)
    (hcancel : Step w ⟨⟨env, .requestCancel scope id⟩, .ok (.cancelled r)⟩ w₁) :
    ∃ t, r.cancelRequestedAt = some t ∧ ∀ trace w₂, Execution w₁ trace w₂ →
      (∃ j ∈ w₂.db.jobs.rows, j.id = id ∧
        (j.status = .cancelRequested ∨ j.status = .canceled) ∧ j.cancelRequestedAt = some t ∧
        (∀ env', requestCancel env' scope id w₂.db = .ok (⟨id, j.status, some t, true⟩, w₂.db)) ∧
        (j.status = .canceled → ∀ trace' w₃, Execution w₂ trace' w₃ → j ∈ w₃.db.jobs.rows)) ∧
      NotGrown (w₁.db.caseFile id) (w₂.db.caseFile id) ∧
      ∀ l w₃ scope' fence, Step w₂ l w₃ → l.request.call.working = true →
        l.request.call.report = some (scope', fence) →
        (∃ a ∈ w₂.db.attempts.rows, a.id = fence.attemptID ∧ a.jobID = id) → w₃.db = w₂.db := by
  have hreach₁ := h.step hcancel
  obtain ⟨t, ht, hc, k, hk, hkid, hkscope⟩ : ∃ t, r.cancelRequestedAt = some t ∧
      Canceling t (w₁.db.caseFile id) ∧ ∃ j ∈ w₁.db.jobs.rows, j.id = id ∧ j.scope = scope := by
    cases hcancel with
    | committed clock run =>
      obtain ⟨r', hr, hans⟩ := answering_eq_ok.mp run
      cases hans
      exact requestCancel_canceling hr
  refine ⟨t, ht, fun trace w₂ hrun => ?_⟩
  have hsound := (hreach₁.run hrun).sound
  have hc₂ := canceling_of_run hrun hc
  obtain ⟨j, hj, hstatus, hat⟩ := hc₂
  obtain ⟨hjmem, hjid⟩ := caseFile_job_eq_some.mp hj
  have hscope : j.scope = scope := by
    obtain ⟨k', hk', hdef⟩ := (traceable_of_run hrun).jobs k hk
    simp only [Job.definition, Prod.mk.injEq] at hdef
    have hkj : k' = j := w₂.db.job_eq_of_id hk' hjmem (by rw [hdef.1, hkid, hjid])
    rw [← hkj, hdef.2.1, hkscope]
  refine ⟨⟨j, hjmem, hjid, hstatus, hat, fun env' => ?_, ?_⟩, notGrown_of_run hrun hc, ?_⟩
  · have hagain := requestCancel_again env' hjmem hstatus (hsound.queues j hjmem)
    rw [hscope, hjid, hat] at hagain
    exact hagain
  · intro hcanceled trace' w₃ hrun'
    exact (hsound.permanent hrun').job j hjmem (by rw [hcanceled]; rfl)
  · intro l w₃ scope' fence hstep hworking hreport hattempt
    exact hstep.unchanged_of_canceling ⟨j, hj, hstatus, hat⟩ hworking hreport hattempt

end Runs

/-- The sample job, canceled while it runs and acknowledged by its worker. -/
theorem cancellation_final_sample :
    (((quiet.exec sampleStart).2.step sampleCancel).2.exec [sampleAck]).2.db.jobs.rows.map
        (fun j => (j.status, j.cancelRequestedAt)) = [(.canceled, some 5)] ∧
      NotGrown (((quiet.exec sampleStart).2.step sampleCancel).2.db.caseFile 2)
        ((((quiet.exec sampleStart).2.step sampleCancel).2.exec [sampleAck]).2.db.caseFile 2) := by
  obtain ⟨hclock, hout, hlater⟩ : (quiet.exec sampleStart).2.clock ≤ 5 ∧
      ((quiet.exec sampleStart).2.step sampleCancel).1.outcome
        = .ok (.cancelled ⟨2, .cancelRequested, some 5, false⟩) ∧
      Clocked ((quiet.exec sampleStart).2.step sampleCancel).2.clock [sampleAck] := by decide +kernel
  refine ⟨by decide +kernel, ?_⟩
  obtain ⟨t, -, hall⟩ := cancellation_final (quiet_reachable (by decide))
    (@World.step_committed _ sampleCancel _ hclock hout)
  exact (hall _ _ (@World.exec_run [sampleAck] _ hlater)).2.1

end TaskForge
