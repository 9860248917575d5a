/-
The system: the sixteen store transactions as one step relation, and its runs.

A step is one call with its own environment (clock samples, configuration, fresh
ids), made to the database as it stands. The transactions take their row locks
before they decide anything, so a step is atomic; the database clock never runs
backwards, so a step samples it at or after every earlier sample. A call that is
refused leaves the database as it was, and is a step all the same: its refusal is
in the trace. Nothing is assumed about who calls, with which arguments, or in
which order.
-/
import TaskForge.Jobs
import TaskForge.Runs

open Relational Fallible

namespace TaskForge

/-! ## Calls and answers -/

/-- The store transactions, with their arguments. -/
inductive Call where
  | submit (scope key : String) (req : NormalizedRequest) (trace : TraceContext)
  | replay (scope : String) (originalJobID : UUID) (key : String)
  | requestCancel (scope : String) (jobID : UUID)
  | promoteDueJob (jobID : UUID)
  | renotifyStrandedJob (jobID : UUID) (after : Int)
  | register (scope : String) (registration : Registration)
  | heartbeat (scope : String) (req : HeartbeatRequest)
  | claim (scope : String) (req : ClaimRequest)
  | start (scope : String) (fence : Fence)
  | renewLease (scope : String) (req : RenewalRequest)
  | succeed (scope : String) (fence : Fence) (result : Option ResultRef)
  | fail (scope : String) (report : FailureReport)
  | acknowledgeCancellation (scope : String) (ack : CancelAcknowledgment)
  | reconcileDueTimeout (attemptID : UUID) (stats : ReconcileStats)
  | reconcileExpiredLease (leaseID : UUID) (stats : ReconcileStats)
  | markSessionStale (sessionID : UUID) (staleAfter : Int)
deriving DecidableEq

/-- What a committed call answers. -/
inductive Answer where
  | submitted (r : SubmitResult)
  | replayed (r : ReplayResult)
  | cancelled (r : CancelResult)
  | promoted (changed : Bool)
  | renotified (changed : Bool)
  | registered (r : Session)
  | beat (r : HeartbeatResult)
  | claimed (r : ClaimResult)
  | started (r : StartResult)
  | renewed (r : RenewalResult)
  | succeeded
  | failed (r : OutcomeResult)
  | acknowledged (r : OutcomeResult)
  | timeoutReconciled (stats : ReconcileStats)
  | leaseReconciled (stats : ReconcileStats)
  | sessionMarked (changed : Bool)
deriving DecidableEq

/-- Name a transaction's answer. -/
def answering {α : Type} (wrap : α → Answer) (x : Tx (α × DB)) : Tx (Answer × DB) := do
  let (r, db) ← x
  pure (wrap r, db)

/-- The transaction of a call. -/
def Call.run (env : Env) (db : DB) : Call → Tx (Answer × DB)
  | .submit scope key req trace => answering .submitted (TaskForge.submit env scope key req trace db)
  | .replay scope originalJobID key =>
    answering .replayed (TaskForge.replay env scope originalJobID key db)
  | .requestCancel scope jobID => answering .cancelled (TaskForge.requestCancel env scope jobID db)
  | .promoteDueJob jobID => answering .promoted (TaskForge.promoteDueJob env jobID db)
  | .renotifyStrandedJob jobID after =>
    answering .renotified (TaskForge.renotifyStrandedJob env jobID after db)
  | .register scope registration =>
    answering .registered (TaskForge.register env scope registration db)
  | .heartbeat scope req => answering .beat (TaskForge.heartbeat env scope req db)
  | .claim scope req => answering .claimed (TaskForge.claim env scope req db)
  | .start scope fence => answering .started (TaskForge.start env scope fence db)
  | .renewLease scope req => answering .renewed (TaskForge.renewLease env scope req db)
  | .succeed scope fence result =>
    answering (fun _ => .succeeded) (TaskForge.succeed env scope fence result db)
  | .fail scope report => answering .failed (TaskForge.fail env scope report db)
  | .acknowledgeCancellation scope ack =>
    answering .acknowledged (TaskForge.acknowledgeCancellation env scope ack db)
  | .reconcileDueTimeout attemptID stats =>
    answering .timeoutReconciled (TaskForge.reconcileDueTimeout env attemptID stats db)
  | .reconcileExpiredLease leaseID stats =>
    answering .leaseReconciled (TaskForge.reconcileExpiredLease env leaseID stats db)
  | .markSessionStale sessionID staleAfter =>
    answering .sessionMarked (TaskForge.markSessionStale env sessionID staleAfter db)

theorem answering_eq_ok {α : Type} {wrap : α → Answer} {x : Tx (α × DB)} {ans : Answer} {db : DB} :
    answering wrap x = .ok (ans, db) ↔ ∃ r, x = .ok (r, db) ∧ ans = wrap r := by
  simp only [answering, bind_eq_ok, pure_eq_ok, Prod.mk.injEq]
  constructor
  · rintro ⟨⟨r, db₁⟩, hx, rfl, rfl⟩
    exact ⟨r, hx, rfl⟩
  · rintro ⟨r, hx, rfl⟩
    exact ⟨(r, db), hx, rfl, rfl⟩

theorem answering_eq_error {α : Type} {wrap : α → Answer} {x : Tx (α × DB)} {f : Failure} :
    answering wrap x = .error f ↔ x = .error f := by
  simp only [answering, bind_eq_error, pure_ne_error, and_false, exists_false, or_false]

/-! ## Steps and runs -/

/-- The database and the latest clock sample. -/
structure World where
  db : DB
  clock : Int

/-- One call, with what it takes from outside. -/
structure Request where
  env : Env
  call : Call

/-- A step's label: the call, and what it was answered or refused with. -/
structure Label where
  request : Request
  outcome : Except Failure Answer

/-- One atomic transaction. -/
inductive Step : World → Label → World → Prop where
  | committed {w : World} {req : Request} {ans : Answer} {db : DB}
      (clock : w.clock ≤ req.env.clock.s₀) (run : req.call.run req.env w.db = .ok (ans, db)) :
      Step w ⟨req, .ok ans⟩ ⟨db, req.env.clock.s₂⟩
  | refused {w : World} {req : Request} {f : Failure}
      (clock : w.clock ≤ req.env.clock.s₀) (run : req.call.run req.env w.db = .error f) :
      Step w ⟨req, .error f⟩ ⟨w.db, req.env.clock.s₂⟩

/-- A finite sequence of transactions. -/
abbrev Execution := Runs.Run Step

/-- The step as a function: every call is answered or refused, and leaves one
state. -/
def World.step (w : World) (req : Request) : Label × World :=
  match req.call.run req.env w.db with
  | .ok (ans, db) => (⟨req, .ok ans⟩, ⟨db, req.env.clock.s₂⟩)
  | .error f => (⟨req, .error f⟩, ⟨w.db, req.env.clock.s₂⟩)

/-- A list of calls, made one after the other. -/
def World.exec (w : World) : List Request → List Label × World
  | [] => ([], w)
  | req :: rest =>
    (((w.step req).1 :: ((w.step req).2.exec rest).1), ((w.step req).2.exec rest).2)

/-- Each call samples the clock at or after every sample before it. -/
def Clocked (now : Int) : List Request → Prop
  | [] => True
  | req :: rest => now ≤ req.env.clock.s₀ ∧ Clocked req.env.clock.s₂ rest

instance Clocked.decidable : (now : Int) → (reqs : List Request) → Decidable (Clocked now reqs)
  | _, [] => .isTrue trivial
  | now, req :: rest =>
    haveI := Clocked.decidable req.env.clock.s₂ rest
    inferInstanceAs (Decidable (now ≤ req.env.clock.s₀ ∧ Clocked req.env.clock.s₂ rest))

/-- A database with queues and no jobs. Sessions may be there already, each with
its worker (`worker_sessions_worker_fkey`) and registered in the past. -/
structure Initial (w : World) : Prop where
  jobs : w.db.jobs.rows = []
  attempts : w.db.attempts.rows = []
  leases : w.db.leases.rows = []
  dlqEntries : w.db.dlqEntries.rows = []
  dlqReplays : w.db.dlqReplays.rows = []
  results : w.db.results.rows = []
  idempotency : w.db.idempotency.rows = []
  registered : ∀ s ∈ w.db.sessions.rows, s.registeredAt ≤ w.clock
  workers : ∀ s ∈ w.db.sessions.rows, ∃ x ∈ w.db.workers.rows,
    x.id = s.workerID ∧ x.scope = s.scope

/-- The states that runs from an initial database reach. -/
def Reachable (w : World) : Prop := ∃ w₀ trace, Initial w₀ ∧ Execution w₀ trace w

section

variable {w w' : World} {l : Label}
variable {call : Call} {ans : Answer} {scope key : String} {req : NormalizedRequest}
  {trace : TraceContext} {r : SubmitResult} {reqs : List Request}

theorem TxClock.s₀_le_s₂ (c : TxClock) : c.s₀ ≤ c.s₂ := c.le₁.trans c.le₂

/-- The clock never runs backwards. -/
theorem Step.clock_le (h : Step w l w') : w.clock ≤ w'.clock := by
  cases h with
  | @committed req _ _ clock _ | @refused req _ clock _ => exact clock.trans req.env.clock.s₀_le_s₂

/-- Every step is sampled at or after the clock of the state it starts from. -/
theorem Step.clock_le_sample (h : Step w l w') : w.clock ≤ l.request.env.clock.s₀ := by
  cases h with
  | committed clock _ => exact clock
  | refused clock _ => exact clock

/-- An answered step ran its call to the answer and the state after it. -/
theorem Step.ran (h : Step w l w') (hcall : l.request.call = call) (hans : l.outcome = .ok ans) :
    call.run l.request.env w.db = .ok (ans, w'.db) := by
  cases h with
  | committed _ run =>
    cases hcall
    cases hans
    exact run
  | refused _ _ => cases hans

/-- A refused step ran its call to the failure, and changed nothing. -/
theorem Step.failed (h : Step w l w') (hcall : l.request.call = call) {f : Failure}
    (hout : l.outcome = .error f) : call.run l.request.env w.db = .error f ∧ w'.db = w.db := by
  cases h with
  | committed _ _ => cases hout
  | refused _ run =>
    cases hcall
    cases hout
    exact ⟨run, rfl⟩

theorem Step.submitted (h : Step w l w') (hcall : l.request.call = .submit scope key req trace)
    (hans : l.outcome = .ok (.submitted r)) :
    submit l.request.env scope key req trace w.db = .ok (r, w'.db) := by
  obtain ⟨_, hrun, heq⟩ := answering_eq_ok.mp (h.ran hcall hans)
  cases heq
  exact hrun

/-- What a submission that made its job has left behind. -/
theorem Step.submitted_first (h : Step w l w')
    (hcall : l.request.call = .submit scope key req trace) (hans : l.outcome = .ok (.submitted r))
    (hfirst : r.replayed = false) :
    r.job = submittedView l.request.env scope req ∧
      submittedJob l.request.env scope req ∈ w'.db.jobs.rows ∧
      ∃ x ∈ w'.db.idempotency.rows, x.scope = scope ∧ x.idempotencyKey = key ∧
        x.jobID = l.request.env.id₁ := by
  rcases submit_eq_ok (h.submitted hcall hans) with ⟨-, hreplayed⟩ | ⟨-, rfl, happlied⟩
  · rw [hreplayed] at hfirst
    cases hfirst
  · refine ⟨rfl, ?_, ⟨scope, key, l.request.env.fingerprint req, l.request.env.id₁,
      l.request.env.clock.start⟩, ?_, rfl, rfl, rfl⟩
    · rw [happlied.jobs]
      exact List.mem_concat_self
    · rw [happlied.idempotency]
      exact List.mem_concat_self

theorem Step.claimed (h : Step w l w') {req : ClaimRequest} {r : ClaimResult}
    (hcall : l.request.call = .claim scope req) (hans : l.outcome = .ok (.claimed r)) :
    claim l.request.env scope req w.db = .ok (r, w'.db) := by
  obtain ⟨_, hrun, heq⟩ := answering_eq_ok.mp (h.ran hcall hans)
  cases heq
  exact hrun

theorem Step.registered (h : Step w l w') {registration : Registration} {session : Session}
    (hcall : l.request.call = .register scope registration)
    (hans : l.outcome = .ok (.registered session)) :
    register l.request.env scope registration w.db = .ok (session, w'.db) := by
  obtain ⟨_, hrun, heq⟩ := answering_eq_ok.mp (h.ran hcall hans)
  cases heq
  exact hrun

theorem Step.renewed (h : Step w l w') {req : RenewalRequest} {r : RenewalResult}
    (hcall : l.request.call = .renewLease scope req) (hans : l.outcome = .ok (.renewed r)) :
    renewLease l.request.env scope req w.db = .ok (r, w'.db) := by
  obtain ⟨_, hrun, heq⟩ := answering_eq_ok.mp (h.ran hcall hans)
  cases heq
  exact hrun

theorem Step.succeeded (h : Step w l w') {fence : Fence} {result : Option ResultRef}
    (hcall : l.request.call = .succeed scope fence result) (hans : l.outcome = .ok ans) :
    ∃ u, succeed l.request.env scope fence result w.db = .ok (u, w'.db) := by
  have hran : answering (fun _ => .succeeded) (succeed l.request.env scope fence result w.db) =
      .ok (ans, w'.db) := h.ran hcall hans
  obtain ⟨u, hrun, -⟩ := answering_eq_ok.mp hran
  exact ⟨u, hrun⟩

theorem World.step_step (w : World) {req : Request} (h : w.clock ≤ req.env.clock.s₀) :
    Step w (w.step req).1 (w.step req).2 := by
  unfold World.step
  cases hrun : req.call.run req.env w.db with
  | ok r => exact .committed h hrun
  | error f => exact .refused h hrun

/-- A call, answered or refused, leaves the clock at its last sample. -/
theorem World.step_clock (w : World) (req : Request) : (w.step req).2.clock = req.env.clock.s₂ := by
  unfold World.step
  split <;> rfl

theorem World.step_request (w : World) (req : Request) : (w.step req).1.request = req := by
  unfold World.step
  split <;> rfl

/-- The trace of a list of calls has those calls. -/
theorem World.exec_requests (w : World) (reqs : List Request) :
    (w.exec reqs).1.map Label.request = reqs := by
  induction reqs generalizing w with
  | nil => rfl
  | cons req rest ih => rw [World.exec, List.map_cons, World.step_request, ih]

theorem World.mem_exec_requests {l : Label} (h : l ∈ (w.exec reqs).1) : l.request ∈ reqs := by
  have hrequest := List.mem_map_of_mem (f := Label.request) h
  rwa [World.exec_requests] at hrequest

/-- A call that is answered commits. -/
theorem World.step_committed (w : World) {req : Request} {ans : Answer}
    (h : w.clock ≤ req.env.clock.s₀) (hout : (w.step req).1.outcome = .ok ans) :
    Step w ⟨req, .ok ans⟩ (w.step req).2 := by
  unfold World.step at hout ⊢
  cases hrun : req.call.run req.env w.db with
  | ok r =>
    rw [hrun] at hout
    cases hout
    exact .committed h hrun
  | error f =>
    rw [hrun] at hout
    cases hout

/-- Calls with nondecreasing clocks make a run. -/
theorem World.exec_run {reqs : List Request} {w : World} (h : Clocked w.clock reqs) :
    Execution w (w.exec reqs).1 (w.exec reqs).2 := by
  induction reqs generalizing w with
  | nil => exact .nil w
  | cons req rest ih =>
    obtain ⟨hclock, hrest⟩ := h
    refine .cons (w.step_step hclock) (ih ?_)
    rw [World.step_clock]
    exact hrest

theorem Reachable.step (h : Reachable w) (hs : Step w l w') : Reachable w' := by
  obtain ⟨w₀, trace, hinit, hrun⟩ := h
  exact ⟨w₀, trace ++ [l], hinit, hrun.append (.cons hs (.nil _))⟩

theorem Reachable.run {trace : List Label} (h : Reachable w) (hr : Execution w trace w') :
    Reachable w' := by
  obtain ⟨w₀, before, hinit, hrun⟩ := h
  exact ⟨w₀, before ++ trace, hinit, hrun.append hr⟩

end

/-! ## A database to run on -/

/-- One queue, and nothing else. -/
def quietDB : DB where
  queues := ⟨[⟨"default", 4, "workers"⟩], by decide, by decide⟩
  workers := .empty
  sessions := .empty
  jobs := .empty
  attempts := .empty
  leases := .empty
  outbox := .empty
  idempotency := .empty
  dlqEntries := .empty
  dlqReplays := .empty
  results := .empty

/-- The quiet database at instant zero. -/
def quiet : World := ⟨quietDB, 0⟩

theorem quiet_initial : Initial quiet := by
  constructor <;> first | rfl | (intro s hs; cases hs)

/-- An environment whose samples are all `t`, with a thirty-second lease and a
one-second backoff. -/
def envAt (t : Int) (id₁ id₂ : UUID) : Env where
  clock := ⟨t, t, t, t, le_rfl, le_rfl, le_rfl⟩
  leaseDuration := 30000000000
  retryPolicy := ⟨1000000000, 60000000000⟩
  backoff := fun _ => .finite 1000000000
  id₁ := id₁
  id₂ := id₂
  fingerprint := fun _ => "0123456789abcdef0123456789abcdef0123456789abcdef0123456789abcdef"

/-- The fence of the assignment the calls below lead to. -/
def sampleFence : Fence := ⟨2, 4, 5, 1, 7⟩

/-- A worker registers, a job with three attempts is submitted and claimed, and
the attempt starts. -/
def sampleStart : List Request :=
  [⟨envAt 1 1 0, .register "tenant" ⟨7, "worker", "host", "workers", 2, [], ["email"], none⟩⟩,
    ⟨envAt 2 2 3, .submit "tenant" "key"
      ⟨"default", "email", "\x7b\x7d", 5, 3, 60, [], none⟩ ⟨"", ""⟩⟩,
    ⟨envAt 3 4 5, .claim "tenant" ⟨1, 7, 6, "default"⟩⟩,
    ⟨envAt 4 0 0, .start "tenant" sampleFence⟩]

/-- The worker's failure report on it. -/
def sampleReport : FailureReport := ⟨sampleFence, 20, .retryable, "upstream", "it broke"⟩

/-- The report is sent, with two attempts left. -/
def sampleFail : Request := ⟨envAt 5 0 0, .fail "tenant" sampleReport⟩

/-- The backoff passes, the job is promoted, and the worker claims it again. -/
def sampleRetry : List Request :=
  [⟨envAt 1000010 8 0, .promoteDueJob 2⟩, ⟨envAt 1000020 9 10, .claim "tenant" ⟨1, 7, 11, "default"⟩⟩]

/-- The job is canceled while its attempt runs. -/
def sampleCancel : Request := ⟨envAt 5 0 0, .requestCancel "tenant" 2⟩

/-- The worker acknowledges. -/
def sampleAck : Request := ⟨envAt 6 0 0, .acknowledgeCancellation "tenant" ⟨sampleFence, 21⟩⟩

theorem quiet_reachable {reqs : List Request} (h : Clocked 0 reqs) :
    Reachable (quiet.exec reqs).2 := ⟨quiet, _, quiet_initial, World.exec_run h⟩

end TaskForge
