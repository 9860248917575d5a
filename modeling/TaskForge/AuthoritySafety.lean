/-
Authority: who may change what, and when they stop being able to.

A worker's report is believed only while the worker holds authority: its session
is healthy and is its worker's one current session, the fence names the stored
rows exactly, the lease is active and has not run out, and, where the report
is about the work itself, the deadline has not passed. Two of the operations answer
replays before they look at any of this; what is stated here is about changes,
not answers.

The second half is about losing authority. A session that was replaced by a
registration or marked stale is never healthy again, so nothing that presents it
changes anything; but the outcomes it committed while it could are still answered.
-/
import TaskForge.OutcomeReplay

open Relational Fallible

namespace TaskForge

/-! ## The calls of a worker -/

/-- The scope and the fence of a report about an attempt. -/
def Call.report : Call → Option (String × Fence)
  | .start scope fence => some (scope, fence)
  | .renewLease scope req => some (scope, req.fence)
  | .succeed scope fence _ => some (scope, fence)
  | .fail scope report => some (scope, report.fence)
  | .acknowledgeCancellation scope ack => some (scope, ack.fence)
  | _ => none

/-- The reports the attempt's deadline applies to. -/
def Call.timed : Call → Bool
  | .renewLease .. | .succeed .. | .fail .. => true
  | _ => false

/-- The reports that close an attempt. -/
def Call.closing : Call → Bool
  | .succeed .. | .fail .. | .acknowledgeCancellation .. => true
  | _ => false

/-- The session a call presents. -/
def Call.session : Call → Option UUID
  | .register _ reg => some reg.sessionID
  | .heartbeat _ req => some req.sessionID
  | .claim _ req => some req.sessionID
  | .start _ fence => some fence.sessionID
  | .renewLease _ req => some req.fence.sessionID
  | .succeed _ fence _ => some fence.sessionID
  | .fail _ report => some report.fence.sessionID
  | .acknowledgeCancellation _ ack => some ack.fence.sessionID
  | _ => none

/-! ## Authority at a change -/

/-- Full authority at `now`: the stored binding is exactly the fence, the session is
healthy and its worker's only current one, and the lease is usable. -/
structure Authorized (db : DB) (now : Int) (scope : String) (fence : Fence) (s : WorkerSession)
    (j : Job) (a : JobAttempt) (l : Lease) : Prop where
  binding : Authority db scope fence s j a l
  healthy : s.status = .healthy
  current : ∀ t ∈ db.sessions.rows, t.workerID = s.workerID →
    isCurrentSessionStatus t.status = true → t = s
  active : l.status = .active
  unexpired : now < l.expiresAt

section Changes

variable {env : Env} {db db' : DB} {scope : String} {fence : Fence} {s : WorkerSession} {j : Job}
  {a : JobAttempt} {l : Lease}

theorem Authority.authorized (hA : Authority db scope fence s j a l) {now : Int}
    (hlive : Live now s l) : Authorized db now scope fence s j a l where
  binding := hA
  healthy := hlive.healthy
  current t ht hworker hcur :=
    db.session_eq_of_current ht hA.session_mem hcur (by rw [hlive.healthy]; rfl) hworker
  active := hlive.active
  unexpired := hlive.unexpired

/-- **A report that changes a row had authority.** -/
theorem Commit.authorized {call : Call} (h : Commit env db db' call) (hchanged : db' ≠ db)
    (hreport : call.report = some (scope, fence)) :
    ∃ s j a l, Authorized db env.clock.s₀ scope fence s j a l ∧
      (call.timed = true → InTime env.clock.s₀ a) := by
  cases h with
  | unchanged call same => exact absurd same hchanged
  | wrote call id w performs applied =>
    cases performs with
    | start scope' fence' s j a l binding live job attempt =>
      cases hreport
      exact ⟨s, j, a, l, binding.authorized live, fun ht => by cases ht⟩
    | renew scope' req s j a l binding ready
    | succeed scope' fence' result s j a l binding ready
    | fail scope' report s j a l d binding ready =>
      cases hreport
      exact ⟨s, j, a, l, binding.authorized ready.live, fun _ => ready.inTime⟩
    | acknowledge scope' ack s j a l binding ready =>
      cases hreport
      exact ⟨s, j, a, l, binding.authorized ready.live, fun ht => by cases ht⟩
    | _ => cases hreport
  | _ => cases hreport

end Changes

/-- An attempt that was reported on, successfully or not, was reported on in time. -/
theorem Sound.timely {w : World} (h : Sound w) {a : JobAttempt} (ha : a ∈ w.db.attempts.rows)
    (hs : a.status = .succeeded ∨ a.status = .failed) :
    ∃ l ∈ w.db.leases.rows, l.attemptID = a.id ∧ Timely a l := by
  obtain ⟨j, hj, hjob⟩ := h.job_of_attempt ha
  have hmem : a ∈ (w.db.caseFile j.id).attempts := mem_caseFile_attempts.mpr ⟨ha, hjob.symm⟩
  have hclosed : isExecutingAttemptStatus a.status = false := by
    rcases hs with hs | hs <;> rw [hs] <;> rfl
  obtain ⟨l, hl, hbound, hrun⟩ := (h.phase hj).closed_run hmem hclosed
  exact ⟨l, (mem_caseFile_leases.mp hl).1, hbound.lease_attempt, hrun.timely hs⟩

/-! ## Losing authority -/

/-- The step takes the session `id` out of use: another session of its worker is
registered, or the session is marked stale. -/
inductive Retires (w : World) (l : Label) (id : UUID) : Prop where
  | replaced (scope : String) (reg : Registration) (r : Session) (s : WorkerSession)
      (call : l.request.call = .register scope reg) (answer : l.outcome = .ok (.registered r))
      (mem : s ∈ w.db.sessions.rows) (session : s.id = id) (worker : s.workerID = r.workerID)
      (other : r.id ≠ id)
  | stale (staleAfter : Int) (call : l.request.call = .markSessionStale id staleAfter)
      (answer : l.outcome = .ok (.sessionMarked true))

/-- The session `id` is known, and is not healthy. -/
def Retired (db : DB) (id : UUID) : Prop :=
  ∃ s ∈ db.sessions.rows, s.id = id ∧ s.status ≠ .healthy

section Sessions

variable {env : Env} {db db' : DB} {id : UUID}
variable {s : WorkerSession} {scope : String} {reg : Registration} {wid : UUID}

theorem SessionsKept.retired (h : SessionsKept db db') (hr : Retired db id) : Retired db' id := by
  obtain ⟨s, hs, hid, hstatus⟩ := hr
  obtain ⟨s', hs', hout⟩ := h s hs
  exact ⟨s', hs', hout.id.trans hid, hout.not_healthy hstatus⟩

/-- The row of a retired session is not healthy, however it is found. -/
theorem Retired.not_healthy (hr : Retired db id) (hs : s ∈ db.sessions.rows) (hid : s.id = id) :
    s.status ≠ .healthy := by
  obtain ⟨t, ht, htid, hstatus⟩ := hr
  rw [db.session_eq_of_id hs ht (hid.trans htid.symm)]
  exact hstatus

/-- A registration leaves every other session of its worker retired. -/
theorem RegisteredSessions.retires (h : RegisteredSessions env scope reg wid db db')
    (hs : s ∈ db.sessions.rows) (hworker : s.workerID = wid) (hother : s.id ≠ reg.sessionID) :
    Retired db' s.id := by
  obtain ⟨s', hs', hout⟩ := h.kept s hs
  obtain ⟨t, ht, htid, htworker, hthealthy⟩ := h.current
  refine ⟨s', hs', hout.id, fun hhealthy => ?_⟩
  -- Two healthy sessions of one worker are one session.
  have hst : s' = t := db'.session_eq_of_current hs' ht (by rw [hhealthy]; rfl)
    (by rw [hthealthy]; rfl) (hout.worker.trans (hworker.trans htworker.symm))
  exact hother (hout.id.symm.trans ((congrArg WorkerSession.id hst).trans htid))

/-- No registration of a retired session commits: its id is taken, by a row that is
not healthy. -/
theorem RegisteredSessions.not_retired (h : RegisteredSessions env scope reg wid db db') :
    ¬ Retired db reg.sessionID := by
  intro hr
  obtain ⟨t, ht, htid, -, hthealthy⟩ := h.current
  exact (h.kept.retired hr).not_healthy ht htid hthealthy

/-- **A call that presents a retired session changes nothing.** -/
theorem Commit.unchanged_of_retired {call : Call} (h : Commit env db db' call)
    (hsession : call.session = some id) (hr : Retired db id) : db' = db := by
  -- The reports: a change needs authority, and authority a healthy session.
  have hreport : ∀ scope fence, call.report = some (scope, fence) → fence.sessionID = id →
      db' = db := by
    intro scope fence hcall hid
    by_contra hchanged
    obtain ⟨s, j, a, l, hauth, -⟩ := h.authorized hchanged hcall
    exact hr.not_healthy hauth.binding.session_mem (hauth.binding.session_id.trans hid)
      hauth.healthy
  cases h with
  | unchanged call same => exact same
  | registered scope registration reg wid valid only workers sessions =>
    cases hsession
    rw [← (normalizeRegistration_eq_ok valid).1] at hr
    exact absurd hr sessions.not_retired
  | beat scope req s session scope_eq healthy moved =>
    cases hsession
    exact absurd healthy (hr.not_healthy moved.mem session)
  | staled s staleAfter stale moved => cases hsession
  | wrote call id' w performs applied =>
    cases performs with
    | claim scope req s j ready =>
      cases hsession
      exact absurd ready.healthy (hr.not_healthy ready.session_mem ready.session_id)
    | start scope fence | succeed scope fence =>
      exact hreport scope fence rfl (Option.some.inj hsession)
    | renew scope req => exact hreport scope req.fence rfl (Option.some.inj hsession)
    | fail scope report => exact hreport scope report.fence rfl (Option.some.inj hsession)
    | acknowledge scope ack => exact hreport scope ack.fence rfl (Option.some.inj hsession)
    | _ => cases hsession

end Sessions

section Runs

variable {w w' : World} {l : Label} {trace : List Label} {id : UUID}

theorem Step.retired (hs : Step w l w') (hr : Retires w l id) : Retired w'.db id := by
  cases hr with
  | replaced scope reg r s call answer mem session worker other =>
    obtain ⟨reg', wid, -, hrid, hrworker, -, -, hreg⟩ :=
      register_eq_ok (hs.registered call answer)
    rw [← session]
    refine hreg.retires mem (worker.trans hrworker) ?_
    rw [session, ← hrid]
    exact other.symm
  | stale staleAfter call answer =>
    obtain ⟨r', hrun, hans⟩ := answering_eq_ok.mp (hs.ran call answer)
    cases hans
    rcases markSessionStale_eq_ok hrun with ⟨hfalse, -⟩ | ⟨-, s, hid, -, hmoved⟩
    · cases hfalse
    · exact ⟨_, hmoved.new_mem, hid, by simp [staleSession]⟩

/-- A report that closed an attempt, or repeated one that had, is answered in every
later state, and changes nothing there. -/
theorem Sound.closing_answered {env : Env} {db : DB} {call : Call} {ans : Answer} (h : Sound w)
    (hcall : call.run env db = .ok (ans, w.db)) (hclosing : call.closing = true)
    (hrun : Execution w trace w') (env' : Env) :
    ∃ ans', call.run env' w'.db = .ok (ans', w'.db) := by
  cases call with
  | succeed scope fence result =>
    have hanswered : answering (fun _ => .succeeded) (TaskForge.succeed env scope fence result db)
        = .ok (ans, w.db) := hcall
    obtain ⟨u, hr, -⟩ := answering_eq_ok.mp hanswered
    have hagain : answering (fun _ => .succeeded)
        (TaskForge.succeed env' scope fence result w'.db) = .ok (.succeeded, w'.db) :=
      answering_eq_ok.mpr ⟨(), success_recorded hr h hrun env' result, rfl⟩
    exact ⟨.succeeded, hagain⟩
  | fail scope report =>
    obtain ⟨r, hr, -⟩ := answering_eq_ok.mp hcall
    obtain ⟨s, j, a, m, hA, ho, hbody, -⟩ := fail_rows hr
    obtain ⟨s', j', hA'⟩ := h.authority_later hrun hA (h.reported_closed hA.attempt_mem ho)
    refine ⟨.failed (a.answer report.fence.jobID), answering_eq_ok.mpr ⟨_, ?_, rfl⟩⟩
    rw [fail_recorded hA' (fail_valid hr) ho, if_pos hbody]
  | acknowledgeCancellation scope ack =>
    obtain ⟨r, hr, -⟩ := answering_eq_ok.mp hcall
    obtain ⟨s, j, a, m, hA, ho, hstatus, -⟩ := acknowledgeCancellation_rows hr
    obtain ⟨s', j', hA'⟩ := h.authority_later hrun hA (h.reported_closed hA.attempt_mem ho)
    refine ⟨.acknowledged ⟨ack.fence.jobID, .canceled, .canceled, none, none, none, true⟩,
      answering_eq_ok.mpr ⟨_, ?_, rfl⟩⟩
    rw [acknowledgeCancellation_recorded hA' (acknowledgeCancellation_valid hr) ho, if_pos hstatus]
  | _ => cases hclosing

/-- In every reachable state: a report changes a row only under full authority; an
attempt that succeeded or failed did so in time; once a session is retired, no
call that presents it changes any row in any later state; and what was committed
is still answered then. -/
theorem authority_safe (h : Reachable w) :
    (∀ l w' scope fence, Step w l w' → w'.db ≠ w.db →
      l.request.call.report = some (scope, fence) →
      ∃ s j a m, Authorized w.db l.request.env.clock.s₀ scope fence s j a m ∧
        (l.request.call.timed = true → InTime l.request.env.clock.s₀ a)) ∧
    (∀ a ∈ w.db.attempts.rows, a.status = .succeeded ∨ a.status = .failed →
      ∃ m ∈ w.db.leases.rows, m.attemptID = a.id ∧ Timely a m) ∧
    (∀ l w₁ id, Step w l w₁ → Retires w l id → ∀ trace w₂, Execution w₁ trace w₂ →
      ∀ l' w₃, Step w₂ l' w₃ → l'.request.call.session = some id → w₃.db = w₂.db) ∧
    (∀ env call ans w₁, Step w ⟨⟨env, call⟩, .ok ans⟩ w₁ → call.closing = true →
      ∀ trace w₂, Execution w₁ trace w₂ →
      ∀ env', ∃ ans', call.run env' w₂.db = .ok (ans', w₂.db)) := by
  refine ⟨?_, ?_, ?_, ?_⟩
  · intro l w' scope fence hstep hchanged hreport
    exact hstep.commit.authorized hchanged hreport
  · intro a ha hs
    exact h.sound.timely ha hs
  · intro l w₁ id hstep hretires trace w₂ hrun l' w₃ hlater hsession
    have hretired := (traceable_of_run hrun).sessions.retired (hstep.retired hretires)
    exact hlater.commit.unchanged_of_retired hsession hretired
  · intro env call ans w₁ hstep hclosing trace w₂ hrun env'
    have hsound := (h.step hstep).sound
    cases hstep with
    | committed clock run => exact hsound.closing_answered run hclosing hrun env'

end Runs

/-- The sample attempt fails under authority; had its session been marked stale
first, the report would have changed nothing. -/
theorem authority_safe_sample :
    (∃ s j a m, Authorized (quiet.exec sampleStart).2.db 5 "tenant" sampleFence s j a m ∧
      InTime 5 a) ∧
    (((quiet.exec sampleStart).2.step ⟨envAt 5 0 0, .markSessionStale 7 0⟩).2.step sampleFail).2.db
      = ((quiet.exec sampleStart).2.step ⟨envAt 5 0 0, .markSessionStale 7 0⟩).2.db := by
  obtain ⟨hchange, -, hretired, -⟩ := authority_safe (quiet_reachable
    (by decide : Clocked 0 sampleStart))
  obtain ⟨hclock, hmoved, hmarked, hlater⟩ : (quiet.exec sampleStart).2.clock ≤ 5 ∧
      ((quiet.exec sampleStart).2.step sampleFail).2.db.attempts.rows.map JobAttempt.status ≠
        (quiet.exec sampleStart).2.db.attempts.rows.map JobAttempt.status ∧
      ((quiet.exec sampleStart).2.step ⟨envAt 5 0 0, .markSessionStale 7 0⟩).1.outcome =
        .ok (.sessionMarked true) ∧
      ((quiet.exec sampleStart).2.step ⟨envAt 5 0 0, .markSessionStale 7 0⟩).2.clock ≤ 5 := by
    decide +kernel
  constructor
  · have hauth := hchange _ _ "tenant" sampleFence (@World.step_step _ sampleFail hclock)
      (fun h => hmoved (congrArg (fun db => db.attempts.rows.map JobAttempt.status) h))
      (by rw [World.step_request]; rfl)
    rw [World.step_request] at hauth
    obtain ⟨s, j, a, m, hauth, hin⟩ := hauth
    exact ⟨s, j, a, m, hauth, hin rfl⟩
  · exact hretired _ _ 7
      (@World.step_committed _ ⟨envAt 5 0 0, .markSessionStale 7 0⟩ _ hclock hmarked)
      (.stale 0 rfl rfl) _ _ (.nil _) _ _ (@World.step_step _ sampleFail hlater)
      (by rw [World.step_request]; rfl)

end TaskForge
