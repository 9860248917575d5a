/-
What a call that committed did.

Each transaction has its own specification; this file puts them side by side.
`Performs env db call id w` says that `call` found the rows and the guard it
needs and that `w` are its writes, about the job `id`. A call that committed
performed its writes, or moved one session, or registered one, or changed
nothing (`Call.commit`). A call that passed its own checks and was refused all
the same was about to do one of these, and PostgreSQL refused one of its rows
(`Call.refusal`). Whatever depends on which call it was is read off here, by cases
on the calls that write.
-/
import TaskForge.System

open Relational Fallible

namespace TaskForge

/-- The writes of a call about a job, under the guard the call made sure of. -/
inductive Performs (env : Env) (db : DB) : Call → UUID → Writes → Prop where
  | submit (scope key : String) (req : NormalizedRequest) (trace : TraceContext)
      (queue : ∃ q ∈ db.queues.rows, q.name = req.queue) :
      Performs env db (.submit scope key req trace) env.id₁ (submitWrites env scope key req trace)
  | replay (scope : String) (originalJobID : UUID) (key : String) (original : Job)
      (ready : ReplayReady scope originalJobID db original) :
      Performs env db (.replay scope originalJobID key) env.id₁
        (replayWrites env scope key original)
  | cancel (scope : String) (j : Job) (target : JobStatus) (mem : j ∈ db.jobs.rows)
      (scope_eq : j.scope = scope) (cancelable : cancelTarget j.status = some target) :
      Performs env db (.requestCancel scope j.id) j.id (cancelWrites target env.clock.s₀ j)
  | promote (j : Job) (mem : j ∈ db.jobs.rows)
      (promotable : isPromotable env.clock.s₀ j = true) :
      Performs env db (.promoteDueJob j.id) j.id (promoteWrites env j)
  | renotify (j : Job) (after : Int) (mem : j ∈ db.jobs.rows)
      (stranded : isStranded db after env.clock.s₀ j = true) :
      Performs env db (.renotifyStrandedJob j.id after) j.id (renotifyWrites env j)
  | claim (scope : String) (req : ClaimRequest) (s : WorkerSession) (j : Job)
      (ready : ClaimReady env scope req db s j) :
      Performs env db (.claim scope req) j.id
        (claimWrites env scope req (nextAttemptNumber db j.id) j)
  | start (scope : String) (fence : Fence) (s : WorkerSession) (j : Job) (a : JobAttempt)
      (l : Lease) (binding : Authority db scope fence s j a l) (live : Live env.clock.s₀ s l)
      (job : j.status = .leased) (attempt : a.status = .leased) :
      Performs env db (.start scope fence) j.id (startWrites env.clock.s₀ j a)
  | renew (scope : String) (req : RenewalRequest) (s : WorkerSession) (j : Job) (a : JobAttempt)
      (l : Lease) (binding : Authority db scope req.fence s j a l)
      (ready : RenewReady env req db s j a l) :
      Performs env db (.renewLease scope req) j.id
        (renewWrites env env.clock.s₀ req.renewalRequestID l)
  | succeed (scope : String) (fence : Fence) (result : Option ResultRef) (s : WorkerSession)
      (j : Job) (a : JobAttempt) (l : Lease) (binding : Authority db scope fence s j a l)
      (ready : SucceedReady env.clock.s₀ s j a l) :
      Performs env db (.succeed scope fence result) j.id
        (succeedWrites env scope env.clock.s₀ result j a l)
  | fail (scope : String) (report : FailureReport) (s : WorkerSession) (j : Job) (a : JobAttempt)
      (l : Lease) (d : Decision) (binding : Authority db scope report.fence s j a l)
      (ready : FailReady env report db s j a l d) :
      Performs env db (.fail scope report) j.id
        (finalizeWrites env scope (failedOutcome report) d env.clock.s₀ j a l)
  | acknowledge (scope : String) (ack : CancelAcknowledgment) (s : WorkerSession) (j : Job)
      (a : JobAttempt) (l : Lease) (binding : Authority db scope ack.fence s j a l)
      (ready : AckReady env.clock.s₀ ack db s j a l) :
      Performs env db (.acknowledgeCancellation scope ack) j.id
        (cancellationWrites (some ack.outcomeRequestID) .released env.clock.s₀ j a l)
  | timeOut (stats : ReconcileStats) (s : WorkerSession) (j : Job) (a : JobAttempt) (l : Lease)
      (d : Decision) (binding : Authority db l.scope l.fence s j a l)
      (due : TimeoutDue env.clock.s₀ j a l)
      (decision : env.retryPolicy.decide .timedOut a.attemptNumber a.attemptNumber j.maxAttempts
        env.backoff = .ok d) :
      Performs env db (.reconcileDueTimeout a.id stats) j.id
        (finalizeWrites env l.scope (timeoutOutcome .released) d env.clock.s₀ j a l)
  | expire (stats : ReconcileStats) (s : WorkerSession) (j : Job) (a : JobAttempt) (l : Lease)
      (w : Writes) (binding : Authority db l.scope l.fence s j a l) (lapsed : Lapsed env.clock.s₀ a l)
      (verdict : Verdict env l.scope j a l w) :
      Performs env db (.reconcileExpiredLease l.id stats) j.id w

/-- What a call that committed did to the database. -/
inductive Commit (env : Env) (db db' : DB) : Call → Prop where
  | unchanged (call : Call) (same : db' = db) : Commit env db db' call
  | registered (scope : String) (registration reg : Registration) (wid : UUID)
      (valid : normalizeRegistration registration = .ok reg) (only : SessionsOnly db db')
      (workers : Upserted scope wid db.workers.rows db'.workers.rows)
      (sessions : RegisteredSessions env scope reg wid db db') :
      Commit env db db' (.register scope registration)
  | beat (scope : String) (req : HeartbeatRequest) (s : WorkerSession)
      (session : s.id = req.sessionID) (scope_eq : s.scope = scope)
      (healthy : s.status = .healthy)
      (moved : SessionMoved db db' s (beatSession env.clock.s₀ s)) :
      Commit env db db' (.heartbeat scope req)
  | staled (s : WorkerSession) (staleAfter : Int)
      (stale : isStale staleAfter env.clock.s₀ s = true)
      (moved : SessionMoved db db' s (staleSession env.clock.s₀ s)) :
      Commit env db db' (.markSessionStale s.id staleAfter)
  | wrote (call : Call) (id : UUID) (w : Writes) (performs : Performs env db call id w)
      (applied : w.Applied db db') : Commit env db db' call

section

variable {env : Env} {db db' : DB}
variable {call : Call} {f : Failure}

/-- **The specifications, side by side.** -/
theorem Call.commit {ans : Answer} (h : call.run env db = .ok (ans, db')) :
    Commit env db db' call := by
  cases call with
  | submit scope key req trace =>
    obtain ⟨r, hr, -⟩ := answering_eq_ok.mp h
    rcases submit_eq_ok hr with ⟨same, -⟩ | ⟨hq, -, happ⟩
    · exact .unchanged _ same
    · exact .wrote _ _ _ (.submit scope key req trace hq) happ
  | replay scope originalJobID key =>
    obtain ⟨r, hr, -⟩ := answering_eq_ok.mp h
    obtain ⟨original, hready, ⟨same, -⟩ | ⟨-, happ⟩⟩ := replay_eq_ok hr
    · exact .unchanged _ same
    · exact .wrote _ _ _ (.replay scope originalJobID key original hready) happ
  | requestCancel scope jobID =>
    obtain ⟨r, hr, -⟩ := answering_eq_ok.mp h
    obtain ⟨j, hj, rfl, hscope, ⟨-, -, same⟩ | ⟨target, htarget, -, happ⟩⟩ := requestCancel_eq_ok hr
    · exact .unchanged _ same
    · exact .wrote _ _ _ (.cancel scope j target hj hscope htarget) happ
  | promoteDueJob jobID =>
    obtain ⟨r, hr, -⟩ := answering_eq_ok.mp h
    rcases promoteDueJob_eq_ok hr with ⟨-, same, -⟩ | ⟨-, j, hj, rfl, hprom, happ⟩
    · exact .unchanged _ same
    · exact .wrote _ _ _ (.promote j hj hprom) happ
  | renotifyStrandedJob jobID after =>
    obtain ⟨r, hr, -⟩ := answering_eq_ok.mp h
    rcases renotifyStrandedJob_eq_ok hr with ⟨-, same, -⟩ | ⟨-, j, hj, rfl, hstr, happ⟩
    · exact .unchanged _ same
    · exact .wrote _ _ _ (.renotify j after hj hstr) happ
  | register scope registration =>
    obtain ⟨r, hr, -⟩ := answering_eq_ok.mp h
    obtain ⟨reg, wid, hvalid, -, -, honly, hworkers, hreg⟩ := register_eq_ok hr
    exact .registered scope registration reg wid hvalid honly hworkers hreg
  | heartbeat scope req =>
    obtain ⟨r, hr, -⟩ := answering_eq_ok.mp h
    obtain ⟨s, hid, hscope, hhealthy, hmoved⟩ := heartbeat_eq_ok hr
    exact .beat scope req s hid hscope hhealthy hmoved
  | claim scope req =>
    obtain ⟨r, hr, -⟩ := answering_eq_ok.mp h
    obtain ⟨-, ⟨same, -⟩ | ⟨s, j, hready, -, happ⟩⟩ := claim_eq_ok hr
    · exact .unchanged _ same
    · exact .wrote _ _ _ (.claim scope req s j hready) happ
  | start scope fence =>
    obtain ⟨r, hr, -⟩ := answering_eq_ok.mp h
    obtain ⟨s, j, a, l, hA, hlive, ⟨-, -, same⟩ | ⟨hj, ha, happ⟩⟩ := start_eq_ok hr
    · exact .unchanged _ same
    · exact .wrote _ _ _ (.start scope fence s j a l hA hlive hj ha) happ
  | renewLease scope req =>
    obtain ⟨r, hr, -⟩ := answering_eq_ok.mp h
    obtain ⟨s, j, a, l, hA, -, -, same | ⟨hready, happ⟩⟩ := renewLease_eq_ok hr
    · exact .unchanged _ same
    · exact .wrote _ _ _ (.renew scope req s j a l hA hready) happ
  | succeed scope fence result =>
    have hrun : answering (fun _ => .succeeded) (TaskForge.succeed env scope fence result db)
        = .ok (ans, db') := h
    obtain ⟨r, hr, -⟩ := answering_eq_ok.mp hrun
    obtain ⟨s, j, a, l, hA, ⟨-, -, -, same⟩ | ⟨hready, happ⟩⟩ := succeed_eq_ok hr
    · exact .unchanged _ same
    · exact .wrote _ _ _ (.succeed scope fence result s j a l hA hready) happ
  | fail scope report =>
    obtain ⟨r, hr, -⟩ := answering_eq_ok.mp h
    obtain ⟨s, j, a, l, hA, ⟨-, same⟩ | ⟨d, hready, -, happ⟩⟩ := fail_eq_ok hr
    · exact .unchanged _ same
    · exact .wrote _ _ _ (.fail scope report s j a l d hA hready) happ
  | acknowledgeCancellation scope ack =>
    obtain ⟨r, hr, -⟩ := answering_eq_ok.mp h
    obtain ⟨s, j, a, l, hA, ⟨-, same⟩ | ⟨hready, -, happ⟩⟩ := acknowledgeCancellation_eq_ok hr
    · exact .unchanged _ same
    · exact .wrote _ _ _ (.acknowledge scope ack s j a l hA hready) happ
  | reconcileDueTimeout attemptID stats =>
    obtain ⟨r, hr, -⟩ := answering_eq_ok.mp h
    rcases reconcileDueTimeout_eq_ok hr with ⟨same, -, -⟩ |
      ⟨-, s, j, a, l, d, hA, rfl, hdue, hd, happ⟩
    · exact .unchanged _ same
    · exact .wrote _ _ _ (.timeOut stats s j a l d hA hdue hd) happ
  | reconcileExpiredLease leaseID stats =>
    obtain ⟨r, hr, -⟩ := answering_eq_ok.mp h
    rcases reconcileExpiredLease_eq_ok hr with ⟨same, -, -⟩ |
      ⟨-, s, j, a, l, w, hA, rfl, hL, hv, happ⟩
    · exact .unchanged _ same
    · exact .wrote _ _ _ (.expire stats s j a l w hA hL hv) happ
  | markSessionStale sessionID staleAfter =>
    obtain ⟨r, hr, -⟩ := answering_eq_ok.mp h
    rcases markSessionStale_eq_ok hr with ⟨-, same⟩ | ⟨-, s, rfl, hstale, hmoved⟩
    · exact .unchanged _ same
    · exact .staled s staleAfter hstale hmoved

/-- What a step did, whatever it answered. -/
theorem Step.commit {w w' : World} {l : Label} (h : Step w l w') :
    Commit l.request.env w.db w'.db l.request.call := by
  cases h with
  | committed clock run => exact Call.commit run
  | refused clock run => exact .unchanged _ rfl

/-! ## Refusals -/

/-- What refused a call that passed its own checks. -/
inductive Refusal (env : Env) (db : DB) (f : Failure) : Call → Prop where
  | register (scope : String) (registration reg : Registration)
      (valid : normalizeRegistration registration = .ok reg)
      (refused : RegisterRefused env scope reg db f) :
      Refusal env db f (.register scope registration)
  | session (call : Call) (s s' : WorkerSession) (mem : s ∈ db.sessions.rows)
      (write : s' = beatSession env.clock.s₀ s ∨ s' = staleSession env.clock.s₀ s)
      (refused : UpdateRefused .workerSessions db.sessions s s' f) : Refusal env db f call
  | write (call : Call) (id : UUID) (w : Writes) (performs : Performs env db call id w)
      (refused : w.Refused db f) : Refusal env db f call

/-- **Only the schema refuses a transaction that its own checks let pass.** -/
theorem Call.refusal (hf : f.cause ≠ .check) (h : call.run env db = .error f) :
    Refusal env db f call := by
  cases call with
  | submit scope key req trace =>
    obtain ⟨hq, href⟩ := submit_forced hf (answering_eq_error.mp h)
    exact .write _ _ _ (.submit scope key req trace hq) href
  | replay scope originalJobID key =>
    obtain ⟨original, hready, href⟩ := replay_forced hf (answering_eq_error.mp h)
    exact .write _ _ _ (.replay scope originalJobID key original hready) href
  | requestCancel scope jobID =>
    obtain ⟨j, hj, rfl, hscope, target, htarget, href⟩ :=
      requestCancel_forced hf (answering_eq_error.mp h)
    exact .write _ _ _ (.cancel scope j target hj hscope htarget) href
  | promoteDueJob jobID =>
    obtain ⟨j, hj, rfl, hprom, href⟩ := promoteDueJob_forced hf (answering_eq_error.mp h)
    exact .write _ _ _ (.promote j hj hprom) href
  | renotifyStrandedJob jobID after =>
    obtain ⟨j, hj, rfl, hstr, href⟩ := renotifyStrandedJob_forced hf (answering_eq_error.mp h)
    exact .write _ _ _ (.renotify j after hj hstr) href
  | register scope registration =>
    obtain ⟨reg, hvalid, href⟩ := register_forced hf (answering_eq_error.mp h)
    exact .register scope registration reg hvalid href
  | heartbeat scope req =>
    obtain ⟨s, hs, href⟩ := heartbeat_forced hf (answering_eq_error.mp h)
    exact .session _ s _ hs (.inl rfl) href
  | claim scope req =>
    obtain ⟨s, j, hready, href⟩ := claim_forced hf (answering_eq_error.mp h)
    exact .write _ _ _ (.claim scope req s j hready) href
  | start scope fence =>
    obtain ⟨s, j, a, l, hA, hlive, hj, ha, href⟩ := start_forced hf (answering_eq_error.mp h)
    exact .write _ _ _ (.start scope fence s j a l hA hlive hj ha) href
  | renewLease scope req =>
    obtain ⟨s, j, a, l, hA, hready, href⟩ := renewLease_forced hf (answering_eq_error.mp h)
    exact .write _ _ _ (.renew scope req s j a l hA hready) href
  | succeed scope fence result =>
    have hrun : answering (fun _ => .succeeded) (TaskForge.succeed env scope fence result db)
        = .error f := h
    obtain ⟨s, j, a, l, hA, hready, href⟩ := succeed_forced hf (answering_eq_error.mp hrun)
    exact .write _ _ _ (.succeed scope fence result s j a l hA hready) href
  | fail scope report =>
    obtain ⟨s, j, a, l, d, hA, hready, href⟩ := fail_forced hf (answering_eq_error.mp h)
    exact .write _ _ _ (.fail scope report s j a l d hA hready) href
  | acknowledgeCancellation scope ack =>
    obtain ⟨s, j, a, l, hA, hready, href⟩ :=
      acknowledgeCancellation_forced hf (answering_eq_error.mp h)
    exact .write _ _ _ (.acknowledge scope ack s j a l hA hready) href
  | reconcileDueTimeout attemptID stats =>
    obtain ⟨s, j, a, l, d, hA, rfl, hdue, hd, href⟩ :=
      reconcileDueTimeout_forced hf (answering_eq_error.mp h)
    exact .write _ _ _ (.timeOut stats s j a l d hA hdue hd) href
  | reconcileExpiredLease leaseID stats =>
    obtain ⟨s, j, a, l, w, hA, rfl, hL, hv, href⟩ :=
      reconcileExpiredLease_forced hf (answering_eq_error.mp h)
    exact .write _ _ _ (.expire stats s j a l w hA hL hv) href
  | markSessionStale sessionID staleAfter =>
    obtain ⟨s, hs, href⟩ := markSessionStale_forced (answering_eq_error.mp h)
    exact .session _ s _ hs (.inr rfl) href

theorem RowWriteRefused.cause {R : Type} {C : Constraints R} {name : TableName} {t : Table C}
    {w : RowWrite R} (h : RowWriteRefused name t w f) :
    ∃ v, f.cause = .schema name v := by
  cases w with
  | keep => exact absurd h id
  | insert | replace => exact h.1

theorem Writes.Refused.cause {w : Writes} (h : w.Refused db f) :
    ∃ t v, f.cause = .schema t v := by
  cases h with
  | job h => exact ⟨_, h.cause⟩
  | attempt h => exact ⟨_, h.cause⟩
  | lease h => exact ⟨_, h.cause⟩
  | event e he h => exact ⟨_, h.1⟩
  | dlq d hd h => exact ⟨_, h.1⟩
  | result r hr h => exact ⟨_, h.1⟩
  | idempotency i hi h => exact ⟨_, h.1⟩
  | replay r hr h => exact ⟨_, h.1⟩

/-- A refusal names the table that refused. -/
theorem Refusal.cause (h : Refusal env db f call) :
    ∃ t v, f.cause = .schema t v := by
  cases h with
  | register scope registration reg valid refused =>
    cases refused with
    | worker refused => exact ⟨_, upsertWorker_error refused⟩
    | fencing s mem refused => exact ⟨_, refused.1⟩
    | session wid fenced rows unknown refused => exact ⟨_, refused.1⟩
  | session call s s' mem write refused => exact ⟨_, refused.1⟩
  | write call id w performs refused => exact refused.cause

end

end TaskForge
