/-
What a reconciliation pass counts, and what it committed.

`ReconcileStats` "counts what one reconciliation pass durably changed". A pass may be
cut short by the database at any statement, and at any `COMMIT`, and returns what it
has counted by then. So the transaction of a candidate is read here up to its
`COMMIT` (`Ending`), with what it has counted before it (`Ending.counted`) and what
after it (`Ending.committed`); run through, it is the transaction of `Reconcile.lean`
(`reconcileDueTimeout_eq`, `reconcileExpiredLease_eq`). The database a candidate
finds is its own: anything may have happened since the last one.

What was committed is read off the tables, before and after (`moved`). What a turn is
owed is read off the rows it finds (`OwedTimeout`, `OwedRecovery`), and with that when
counts and changes part: for a timeout, which is counted before its `COMMIT`, and as a
retry that waits whatever status it left; and for any turn whose `COMMIT` takes effect
and is reported as failed (`reconcile_stats_exact_iff`).
-/
import TaskForge.Passes

open Relational Fallible

namespace TaskForge

/-! ## Transactions up to their commit -/

/-- What a candidate's transaction has come to when it would commit: the job's new
status, where it varies, and the database it leaves. -/
inductive Ending where
  | skipped
  /-- `finalizeTimeout`, for a lease that lapsed or one that is still live. -/
  | timedOut (lapsed : Bool) (job : JobStatus) (db : DB)
  | canceled (db : DB)
  | abandoned (job : JobStatus) (db : DB)

namespace Ending

/-- The database left by the commit. -/
def db (before : DB) : Ending → DB
  | .skipped => before
  | .timedOut _ _ db => db
  | .canceled db => db
  | .abandoned _ db => db

/-- The counts when `COMMIT` is sent: `finalizeTimeout` has counted already. -/
def counted (stats : ReconcileStats) : Ending → ReconcileStats
  | .timedOut _ job _ =>
    if job = .deadLettered then { stats with deadLetteredJobs := stats.deadLetteredJobs + 1 }
    else { stats with retryWaitingJobs := stats.retryWaitingJobs + 1 }
  | _ => stats

/-- The counts when the candidate is done with. -/
def committed (stats : ReconcileStats) : Ending → ReconcileStats
  | .skipped => stats.skip
  | .timedOut lapsed job db =>
    let stats := counted stats (.timedOut lapsed job db)
    { stats with
      expiredLeases := stats.expiredLeases + if lapsed then 1 else 0
      timedOutAttempts := stats.timedOutAttempts + 1 }
  | .canceled _ =>
    { stats with
      expiredLeases := stats.expiredLeases + 1
      canceledAttempts := stats.canceledAttempts + 1 }
  | .abandoned job _ =>
    if job = .queued then
      { stats with
        expiredLeases := stats.expiredLeases + 1
        requeuedJobs := stats.requeuedJobs + 1 }
    else
      { stats with
        expiredLeases := stats.expiredLeases + 1
        deadLetteredJobs := stats.deadLetteredJobs + 1 }

end Ending

/-- `finalizeTimeout`, up to its commit. -/
def timeoutEnding (env : Env) (db : DB) (state : FenceState) (fence : Fence) (lapsed : Bool) :
    Tx Ending := do
  let decision ← checked (env.retryPolicy.decide .timedOut state.attemptNumber
    state.attemptNumber state.maxAttempts env.backoff) .failed
  let leaseStatus :=
    if state.leaseStatus = .active ∧ ¬ state.serverNow < state.expiresAt then LeaseStatus.expired
    else .released
  let (result, db') ← finalizeAttempt env db state fence (timeoutOutcome leaseStatus) decision
  pure (.timedOut lapsed result.jobStatus db')

/-- `reconcileDueTimeout` under its locks, up to its commit. -/
def dueTimeoutEnding (env : Env) (fence : Fence) (db : DB) (state : FenceState) : Tx Ending :=
  if !state.leaseUsable || !state.timedOut || state.jobStatus != .running ||
      state.attemptStatus != .running then
    pure .skipped
  else timeoutEnding env db state fence false

/-- `reconcileExpiredLease` under its locks, up to its commit. -/
def expiryEnding (env : Env) (fence : Fence) (db : DB) (state : FenceState) : Tx Ending :=
  if state.leaseStatus ≠ .active ∨ state.serverNow < state.expiresAt then pure .skipped
  else if !isExecutingAttemptStatus state.attemptStatus then pure .skipped
  else if state.jobStatus = .cancelRequested then do
    let (_, db') ← finalizeCancellation db state fence none .expired
    pure (.canceled db')
  else if !isExecutingJobStatus state.jobStatus then pure .skipped
  else if state.timedOutBeforeLapse then timeoutEnding env db state fence true
  else do
    let decision ← checked (env.retryPolicy.decide .abandoned state.attemptNumber
      state.attemptNumber state.maxAttempts env.backoff) .failed
    let (result, db') ← finalizeAttempt env db state fence abandonedOutcome decision
    pure (.abandoned result.jobStatus db')

/-- Lock the rows of a candidate. A rejected fence is a skipped candidate. -/
def endUnderLocks (env : Env) (scope : String) (fence : Fence) (db : DB)
    (act : FenceState → Tx Ending) : Tx Ending :=
  match lockFenceForReconciliation db scope fence env.clock.s₀ with
  | .ok state => act state
  | .error f => if f.error = .fenceRejected then pure .skipped else .error f

/-- `reconcileDueTimeout`, up to its commit. -/
def endDueTimeout (env : Env) (attemptID : UUID) (db : DB) : Tx Ending :=
  match routeTimeout db attemptID with
  | none => pure .skipped
  | some (scope, fence) => endUnderLocks env scope fence db (dueTimeoutEnding env fence db)

/-- `reconcileExpiredLease`, up to its commit. -/
def endExpiredLease (env : Env) (leaseID : UUID) (db : DB) : Tx Ending :=
  match db.leases.rows.find? fun l => l.id == leaseID with
  | none => pure .skipped
  | some l => endUnderLocks env l.scope l.fence db (expiryEnding env l.fence db)

section Agreement

variable {env : Env} {db : DB} {fence : Fence} {state : FenceState} {stats : ReconcileStats}

/-- Committed, and counted to the end. -/
def tally (stats : ReconcileStats) (db : DB) (ending : Tx Ending) : Tx (ReconcileStats × DB) :=
  ending >>= fun e => pure (e.committed stats, e.db db)

theorem tally_pure (e : Ending) :
    tally stats db (pure e) = pure (e.committed stats, e.db db) := rfl

theorem underLocks_eq_tally {scope : String} {act : FenceState → Tx (ReconcileStats × DB)}
    {act' : FenceState → Tx Ending} (h : ∀ state, act state = tally stats db (act' state)) :
    underLocks env scope fence stats db act
      = tally stats db (endUnderLocks env scope fence db act') := by
  unfold underLocks endUnderLocks
  cases lockFenceForReconciliation db scope fence env.clock.s₀ with
  | ok state => exact h state
  | error f =>
    dsimp only
    split_ifs
    · rfl
    · rfl

/-- A timeout counts its job before the commit, and its attempt after it. -/
theorem finalizeTimeout_eq_tally (lapsed : Bool) :
    (finalizeTimeout env db state fence stats >>= fun r =>
      pure ({ r.1 with
        expiredLeases := r.1.expiredLeases + if lapsed then 1 else 0
        timedOutAttempts := r.1.timedOutAttempts + 1 }, r.2))
      = tally stats db (timeoutEnding env db state fence lapsed) := by
  unfold finalizeTimeout timeoutEnding
  cases checked (env.retryPolicy.decide .timedOut state.attemptNumber state.attemptNumber
      state.maxAttempts env.backoff) StoreError.failed with
  | error f => rfl
  | ok d =>
    simp only [ok_bind]
    generalize finalizeAttempt env db state fence _ d = result
    cases result with
    | error f => rfl
    | ok r =>
      simp only [ok_bind, tally_pure]
      by_cases hdead : r.1.jobStatus = .deadLettered
      · rw [if_pos hdead, Ending.committed, Ending.counted, if_pos hdead]
        rfl
      · rw [if_neg hdead, Ending.committed, Ending.counted, if_neg hdead]
        rfl

theorem reconcileDueTimeout_eq (env : Env) (attemptID : UUID) (stats : ReconcileStats) (db : DB) :
    reconcileDueTimeout env attemptID stats db
      = tally stats db (endDueTimeout env attemptID db) := by
  unfold reconcileDueTimeout endDueTimeout
  cases routeTimeout db attemptID with
  | none => rfl
  | some route =>
    refine underLocks_eq_tally fun state => ?_
    unfold timeoutUnderLocks dueTimeoutEnding
    split_ifs
    · rfl
    · exact finalizeTimeout_eq_tally false

theorem reconcileExpiredLease_eq (env : Env) (leaseID : UUID) (stats : ReconcileStats) (db : DB) :
    reconcileExpiredLease env leaseID stats db
      = tally stats db (endExpiredLease env leaseID db) := by
  unfold reconcileExpiredLease endExpiredLease
  cases db.leases.rows.find? fun l => l.id == leaseID with
  | none => rfl
  | some l =>
    refine underLocks_eq_tally fun state => ?_
    unfold expiryUnderLocks expiryEnding
    split_ifs
    · rfl
    · rfl
    · cases finalizeCancellation db state l.fence none .expired with
      | error | ok => rfl
    · rfl
    · exact finalizeTimeout_eq_tally true
    · cases checked (env.retryPolicy.decide .abandoned state.attemptNumber state.attemptNumber
          state.maxAttempts env.backoff) StoreError.failed with
      | error f => rfl
      | ok d =>
        simp only [ok_bind]
        cases finalizeAttempt env db state l.fence abandonedOutcome d with
        | error f => rfl
        | ok r =>
          simp only [ok_bind, tally_pure]
          by_cases hqueued : r.1.jobStatus = .queued
          · rw [if_pos hqueued, Ending.committed, if_pos hqueued]
            rfl
          · rw [if_neg hqueued, Ending.committed, if_neg hqueued]
            rfl

end Agreement

/-! ## Passes that the database may fail -/

/-- Where the database fails a transaction, and with what. A failed `COMMIT` is a
rollback; or it took effect, and only the reply to it was lost. -/
inductive Fault where
  | none
  | statement (f : Failure)
  | commit (f : Failure)
  | reply (f : Failure)

/-- One candidate's turn: what its transaction takes from outside, the database it
finds, and where that fails it. -/
structure Handling where
  env : Env
  id : UUID
  db : DB
  fault : Fault

/-- What a turn leaves: the counts, the database, and an error. -/
structure Handled where
  stats : ReconcileStats
  db : DB
  error : Option Failure

/-- The turn of a candidate whose transaction comes to `ending`. -/
def Handling.outcome (x : Handling) (stats : ReconcileStats) (ending : Tx Ending) : Handled :=
  match x.fault, ending with
  | .statement f, _ => ⟨stats, x.db, some f⟩
  | _, .error f => ⟨stats, x.db, some f⟩
  -- A skipped candidate has nothing to commit.
  | _, .ok .skipped => ⟨stats.skip, x.db, none⟩
  | .commit f, .ok e => ⟨e.counted stats, x.db, some f⟩
  | .reply f, .ok e => ⟨e.counted stats, e.db x.db, some f⟩
  | .none, .ok e => ⟨e.committed stats, e.db x.db, none⟩

/-- What a pass returns, and the turns it took, each with the database it left. -/
structure PassReport where
  stats : ReconcileStats
  turns : List (Handling × DB)
  error : Option Failure

/-- The loop of a pass: a turn for each candidate, until one fails. -/
def reconcilePass (finish : Env → UUID → DB → Tx Ending) :
    List Handling → ReconcileStats → PassReport
  | [], stats => ⟨stats, [], none⟩
  | x :: xs, stats =>
    match x.outcome stats (finish x.env x.id x.db) with
    | ⟨stats', db', some f⟩ => ⟨stats', [(x, db')], some f⟩
    | ⟨stats', db', none⟩ =>
      let rest := reconcilePass finish xs stats'
      ⟨rest.stats, (x, db') :: rest.turns, rest.error⟩

/-- The turns of a pass that has the database to itself, and is not failed. -/
def alone (finish : Env → UUID → DB → Tx Ending) : List UUID → (ℕ → Env) → DB → List Handling
  | [], _, _ => []
  | id :: ids, envs, db =>
    ⟨envs 0, id, db, .none⟩ :: match finish (envs 0) id db with
      | .ok e => alone finish ids (fun k => envs (k + 1)) (e.db db)
      | .error _ => []

/-- What a pass of the code came to is what the report of its turns says. -/
structure PassReport.Tells (report : PassReport) (before : DB) (pass : Pass ReconcileStats) :
    Prop where
  stats : report.stats = pass.stats
  error : report.error = pass.error
  db : report.turns.foldl (fun _ turn => turn.2) before = pass.db

/-- On its own and not failed, the pass is the loop of `Passes.lean`. -/
theorem reconcilePass_alone {act : Env → UUID → ReconcileStats → DB → Tx (ReconcileStats × DB)}
    {finish : Env → UUID → DB → Tx Ending}
    (hact : ∀ env id stats db, act env id stats db = tally stats db (finish env id db))
    (ids : List UUID) (envs : ℕ → Env) (stats : ReconcileStats) (db : DB) :
    (reconcilePass finish (alone finish ids envs db) stats).Tells db
      (forCandidates act ids envs stats db) := by
  induction ids generalizing envs stats db with
  | nil => exact ⟨rfl, rfl, rfl⟩
  | cons id ids ih =>
    unfold alone reconcilePass forCandidates
    rw [hact]
    cases hfinish : finish (envs 0) id db with
    | error f => exact ⟨rfl, rfl, rfl⟩
    | ok e =>
      have hrest := ih (fun k => envs (k + 1)) (e.committed stats) (e.db db)
      cases e <;> exact ⟨hrest.stats, hrest.error, hrest.db⟩

/-- Both loops of the reconciler are told by the endings of their candidates. -/
theorem reconcile_passes_told (ids : List UUID) (envs : ℕ → Env) (stats : ReconcileStats)
    (db : DB) :
    (reconcilePass endDueTimeout (alone endDueTimeout ids envs db) stats).Tells db
      (forCandidates reconcileDueTimeout ids envs stats db) ∧
    (reconcilePass endExpiredLease (alone endExpiredLease ids envs db) stats).Tells db
      (forCandidates reconcileExpiredLease ids envs stats db) :=
  ⟨reconcilePass_alone reconcileDueTimeout_eq ids envs stats db,
    reconcilePass_alone reconcileExpiredLease_eq ids envs stats db⟩

/-! ## What was committed -/

/-- The counts of `ReconcileStats` that name a durable change. -/
inductive Counter where
  | expiredLeases
  | timedOutAttempts
  | canceledAttempts
  | requeuedJobs
  | retryWaitingJobs
  | deadLetteredJobs
deriving DecidableEq

def ReconcileStats.count (stats : ReconcileStats) : Counter → ℕ
  | .expiredLeases => stats.expiredLeases
  | .timedOutAttempts => stats.timedOutAttempts
  | .canceledAttempts => stats.canceledAttempts
  | .requeuedJobs => stats.requeuedJobs
  | .retryWaitingJobs => stats.retryWaitingJobs
  | .deadLetteredJobs => stats.deadLetteredJobs

/-- How many rows satisfy `p` that did not before. -/
def newly {R : Type} (p : R → Bool) (id : R → UUID) (rows rows' : List R) : ℕ :=
  rows'.countP fun r' => p r' && !rows.any fun r => id r == id r' && p r

/-- What changed between two states, counter by counter. -/
def moved (db db' : DB) : Counter → ℕ
  | .expiredLeases => newly (fun l => l.status == .expired) Lease.id db.leases.rows db'.leases.rows
  | .timedOutAttempts =>
    newly (fun a => a.status == .timedOut) JobAttempt.id db.attempts.rows db'.attempts.rows
  | .canceledAttempts =>
    newly (fun a => a.status == .canceled) JobAttempt.id db.attempts.rows db'.attempts.rows
  | .requeuedJobs => newly (fun j => j.status == .queued) Job.id db.jobs.rows db'.jobs.rows
  | .retryWaitingJobs => newly (fun j => j.status == .retryWait) Job.id db.jobs.rows db'.jobs.rows
  | .deadLetteredJobs =>
    newly (fun j => j.status == .deadLettered) Job.id db.jobs.rows db'.jobs.rows

/-- The counts are the changes of the turns. -/
def Exact (report : PassReport) : Prop :=
  ∀ c, report.stats.count c = (report.turns.map fun x => moved x.1.db x.2 c).sum

section Changes

variable {R : Type} {p : R → Bool} {id : R → UUID} {rows : List R}

theorem newly_self : newly p id rows rows = 0 := by
  rw [newly, List.countP_eq_zero]
  intro r hr
  by_cases hp : p r = true
  · have hany : (rows.any fun x => id x == id r && p x) = true :=
      List.any_eq_true.mpr ⟨r, hr, by simp [hp]⟩
    simp [hany]
  · simp [hp]

/-- Of a replacement, the new row alone can be new under the condition. -/
theorem newly_replaceRow [DecidableEq R] {old new : R} (hnodup : rows.Nodup) (hold : old ∈ rows)
    (huniq : ∀ a ∈ rows, ∀ b ∈ rows, id a = id b → a = b) (hid : id new = id old)
    (hp : p old = false) :
    newly p id rows (replaceRow old new rows) = if p new then 1 else 0 := by
  have hzero : (rows.countP fun r' => p r' && !rows.any fun r => id r == id r' && p r) = 0 :=
    newly_self
  have hcount := @countP_replaceRow _ _
    (fun r' => p r' && !rows.any fun r => id r == id r' && p r) old new rows hnodup hold
  have hfresh : (rows.any fun r => id r == id new && p r) = false := by
    rw [List.any_eq_false]
    intro r hr hcond
    obtain ⟨hrid, hpr⟩ := Bool.and_eq_true_iff.mp hcond
    rw [huniq r hr old hold ((beq_iff_eq.mp hrid).trans hid), hp] at hpr
    cases hpr
  rw [hzero, hp, hfresh] at hcount
  simpa [newly] using hcount

end Changes

theorem moved_self (db : DB) (c : Counter) : moved db db c = 0 := by
  cases c <;> exact newly_self

/-- One run was closed: its job, attempt and lease left what they were for the given
statuses, and no other job, attempt or lease was touched. -/
structure Closing (db db' : DB) (job : JobStatus) (attempt : AttemptStatus) (lease : LeaseStatus) :
    Prop where
  jobs : ∃ j ∈ db.jobs.rows, ∃ j', db'.jobs.rows = replaceRow j j' db.jobs.rows ∧ j'.id = j.id ∧
    j'.status = job ∧ (isExecutingJobStatus j.status = true ∨ j.status = .cancelRequested)
  attempts : ∃ a ∈ db.attempts.rows, ∃ a', db'.attempts.rows = replaceRow a a' db.attempts.rows ∧
    a'.id = a.id ∧ a'.status = attempt ∧ isExecutingAttemptStatus a.status = true
  leases : ∃ l ∈ db.leases.rows, ∃ l', db'.leases.rows = replaceRow l l' db.leases.rows ∧
    l'.id = l.id ∧ l'.status = lease ∧ l.status = .active

/-- What a closed run adds to each counter. -/
def closingCount (job : JobStatus) (attempt : AttemptStatus) (lease : LeaseStatus) : Counter → ℕ
  | .expiredLeases => if lease = .expired then 1 else 0
  | .timedOutAttempts => if attempt = .timedOut then 1 else 0
  | .canceledAttempts => if attempt = .canceled then 1 else 0
  | .requeuedJobs => if job = .queued then 1 else 0
  | .retryWaitingJobs => if job = .retryWait then 1 else 0
  | .deadLetteredJobs => if job = .deadLettered then 1 else 0

theorem Closing.moved_eq {db db' : DB} {job : JobStatus} {attempt : AttemptStatus}
    {lease : LeaseStatus} (h : Closing db db' job attempt lease) (c : Counter) :
    moved db db' c = closingCount job attempt lease c := by
  obtain ⟨j, hj, j', hjobs, hjid, rfl, hjs⟩ := h.jobs
  obtain ⟨a, ha, a', hattempts, haid, rfl, has⟩ := h.attempts
  obtain ⟨l, hl, l', hleases, hlid, rfl, hls⟩ := h.leases
  -- A job that was executing, or was to be canceled, had none of the three statuses.
  have hjob : ∀ s, s = .queued ∨ s = .retryWait ∨ s = .deadLettered →
      newly (fun k => k.status == s) Job.id db.jobs.rows db'.jobs.rows
        = if j'.status = s then 1 else 0 := by
    intro s hs
    rw [hjobs, newly_replaceRow db.jobs.nodup hj (fun _ ha _ hb => db.job_eq_of_id ha hb) hjid]
    · simp
    · rcases hs with rfl | rfl | rfl <;> rcases hjs with hjs | hjs <;>
        cases he : j.status <;> rw [he] at hjs <;> first | rfl | cases hjs
  have hattempt : ∀ s, s = .timedOut ∨ s = .canceled →
      newly (fun b => b.status == s) JobAttempt.id db.attempts.rows db'.attempts.rows
        = if a'.status = s then 1 else 0 := by
    intro s hs
    rw [hattempts, newly_replaceRow db.attempts.nodup ha
      (fun _ ha _ hb => db.attempt_eq_of_id ha hb) haid]
    · simp
    · rcases hs with rfl | rfl <;> cases he : a.status <;> rw [he] at has <;>
        first | rfl | cases has
  cases c with
  | expiredLeases =>
    show newly _ _ _ _ = _
    rw [hleases, newly_replaceRow db.leases.nodup hl (fun _ ha _ hb => db.lease_eq_of_id ha hb) hlid]
    · simp [closingCount]
    · rw [hls]
      rfl
  | timedOutAttempts => exact hattempt _ (.inl rfl)
  | canceledAttempts => exact hattempt _ (.inr rfl)
  | requeuedJobs => exact hjob _ (.inl rfl)
  | retryWaitingJobs => exact hjob _ (.inr (.inl rfl))
  | deadLetteredJobs => exact hjob _ (.inr (.inr rfl))

/-! ## What is owed to a candidate

Whether a turn closes a run, and how, is settled by the rows it finds: those bound to the
candidate, their statuses and instants, and what the retry policy decides for them. A
timeout decided as `d` is owed as `some d`, a cancellation or an abandonment as `none`. -/

/-- The status a decision moves the job to. -/
def Decision.jobStatus (d : Decision) : JobStatus :=
  if d.retry then if 0 < storedMillis d then .retryWait else .queued else .deadLettered

/-- The attempt `id` is due to time out, and the tables admit the rows that says so. -/
inductive OwedTimeout (env : Env) (id : UUID) (db : DB) : Option Decision → Prop
  | timedOut {s : WorkerSession} {j : Job} {a : JobAttempt} {l : Lease} (d : Decision)
      (rows : Authority db l.scope l.fence s j a l) (candidate : a.id = id)
      (due : TimeoutDue env.clock.s₀ j a l)
      (decision : env.retryPolicy.decide .timedOut a.attemptNumber a.attemptNumber j.maxAttempts
        env.backoff = .ok d)
      (admitted : (finalizeWrites env l.scope (timeoutOutcome .released) d env.clock.s₀ j a
        l).Admitted db) : OwedTimeout env id db (some d)

/-- The run under the lease `id` is due to be recovered, and the tables admit the rows. -/
inductive OwedRecovery (env : Env) (id : UUID) (db : DB) : Option Decision → Prop
  | timedOut {s : WorkerSession} {j : Job} {a : JobAttempt} {l : Lease} (d : Decision)
      (rows : Authority db l.scope l.fence s j a l) (candidate : l.id = id)
      (lapsed : Lapsed env.clock.s₀ a l) (job : isExecutingJobStatus j.status = true)
      (outlived : OutlivedDeadline a l)
      (decision : env.retryPolicy.decide .timedOut a.attemptNumber a.attemptNumber j.maxAttempts
        env.backoff = .ok d)
      (admitted : (finalizeWrites env l.scope (timeoutOutcome .expired) d env.clock.s₀ j a
        l).Admitted db) : OwedRecovery env id db (some d)
  | other {s : WorkerSession} {j : Job} {a : JobAttempt} {l : Lease} {w : Writes}
      (rows : Authority db l.scope l.fence s j a l) (candidate : l.id = id)
      (lapsed : Lapsed env.clock.s₀ a l) (verdict : Verdict env l.scope j a l w)
      (untimed : j.status = .cancelRequested ∨ ¬ OutlivedDeadline a l)
      (admitted : w.Admitted db) : OwedRecovery env id db none

/-- What an ending did, in the statuses it left, is what was owed. -/
def Ending.Follows (db : DB) (owed : Option Decision) : Ending → Prop
  | .skipped => False
  | .timedOut lapsed job db' => owed.map Decision.jobStatus = some job ∧
      Closing db db' job .timedOut (if lapsed then .expired else .released)
  | .canceled db' => owed = none ∧ Closing db db' .canceled .canceled .expired
  | .abandoned job db' => owed = none ∧ Closing db db' job .abandoned .expired ∧
      (job = .queued ∨ job = .deadLettered)

/-- The transactions do what is owed, and nothing else. -/
structure Settles (finish : Env → UUID → DB → Tx Ending)
    (owed : Env → UUID → DB → Option Decision → Prop) : Prop where
  ends : ∀ {env id db e}, finish env id db = .ok e →
    e = .skipped ∨ ∃ v, owed env id db v ∧ e.Follows db v
  settled : ∀ {env id db v}, owed env id db v → ∃ e, finish env id db = .ok e ∧ e.Follows db v

section Endings

variable {env : Env} {db db' : DB} {scope : String} {fence : Fence} {s : WorkerSession} {j : Job}
  {a : JobAttempt} {l : Lease} {e : Ending} {id : UUID}

theorem finalizedJob_status (d : Decision) (now : Int) (j : Job) :
    (finalizedJob d now j).status = d.jobStatus := by
  unfold finalizedJob Decision.jobStatus
  split_ifs <;> rfl

/-- A finalized attempt is a closed run, under rows that were admitted. -/
theorem finalizeAttempt_closing {o : AttemptOutcome} {d : Decision} {now : Int} {r : OutcomeResult}
    (hA : Authority db scope fence s j a l)
    (h : finalizeAttempt env db (FenceState.ofRows scope s j a l now) fence o d = .ok (r, db')) :
    r.jobStatus = d.jobStatus ∧ Closing db db' d.jobStatus o.status o.leaseStatus ∧
      (finalizeWrites env scope o d now j a l).Admitted db := by
  obtain ⟨hj, ha, hl, rfl, happ⟩ := finalizeAttempt_eq_ok hA h
  refine ⟨finalizedJob_status d now j, ⟨⟨j, hA.job_mem, _, happ.jobs, finalizedJob_id d now j,
    finalizedJob_status d now j, .inl hj⟩, ⟨a, hA.attempt_mem, _, happ.attempts, rfl, rfl, ha⟩,
    ⟨l, hA.lease_mem, _, happ.leases, rfl, rfl, hl⟩⟩, happ.admitted ?_ ?_ ?_⟩
  · rintro _ _ ⟨⟩
    exact hA.job_mem
  · rintro _ _ ⟨⟩
    exact hA.attempt_mem
  · rintro _ _ ⟨⟩
    exact hA.lease_mem

theorem timeoutEnding_eq_ok {now : Int} {lapsed : Bool} (hA : Authority db scope fence s j a l)
    (hlapsed : lapsed = true ↔ l.status = .active ∧ ¬ now < l.expiresAt)
    (h : timeoutEnding env db (FenceState.ofRows scope s j a l now) fence lapsed = .ok e) :
    ∃ d, env.retryPolicy.decide .timedOut a.attemptNumber a.attemptNumber j.maxAttempts env.backoff
        = .ok d ∧ e.Follows db (some d) ∧
      (finalizeWrites env scope (timeoutOutcome (if lapsed then .expired else .released)) d now j a
        l).Admitted db := by
  simp only [timeoutEnding, bind_eq_ok, pure_eq_ok, checked_eq_ok] at h
  obtain ⟨d, hd, ⟨r, db'⟩, hfin, rfl⟩ := h
  have hlease : (if (FenceState.ofRows scope s j a l now).leaseStatus = .active ∧
      ¬ (FenceState.ofRows scope s j a l now).serverNow
        < (FenceState.ofRows scope s j a l now).expiresAt then LeaseStatus.expired else .released)
      = if lapsed then .expired else .released := if_congr hlapsed.symm rfl rfl
  rw [hlease] at hfin
  obtain ⟨hstatus, hclosing, hadmitted⟩ := finalizeAttempt_closing hA hfin
  exact ⟨d, hd, ⟨congrArg some hstatus.symm, hstatus ▸ hclosing⟩, hadmitted⟩

theorem endUnderLocks_eq_ok {act : FenceState → Tx Ending}
    (h : endUnderLocks env scope fence db act = .ok e) :
    e = .skipped ∨ ∃ s j a l, Authority db scope fence s j a l ∧
      act (FenceState.ofRows scope s j a l env.clock.s₀) = .ok e := by
  unfold endUnderLocks lockFenceForReconciliation at h
  cases hlock : lockAuthorityRows db scope fence env.clock.s₀ with
  | ok state =>
    rw [hlock] at h
    obtain ⟨s, j, a, l, hA, rfl⟩ := lockAuthorityRows_eq_ok.mp hlock
    exact .inr ⟨s, j, a, l, hA, h⟩
  | error f =>
    rw [hlock] at h
    dsimp only at h
    split_ifs at h
    exact .inl (pure_eq_ok.mp h).symm

theorem endDueTimeout_eq_ok (h : endDueTimeout env id db = .ok e) :
    e = .skipped ∨ ∃ v, OwedTimeout env id db v ∧ e.Follows db v := by
  unfold endDueTimeout at h
  split at h
  · exact .inl (pure_eq_ok.mp h).symm
  next scope fence hroute =>
  rcases endUnderLocks_eq_ok h with rfl | ⟨s, j, a, l, hA, hact⟩
  · exact .inl rfl
  unfold dueTimeoutEnding at hact
  split at hact
  · exact .inl (pure_eq_ok.mp hact).symm
  next hguard =>
  have hdue : TimeoutDue env.clock.s₀ j a l :=
    not_not.mp fun hn => hguard (timeout_skipped_iff.mpr hn)
  obtain ⟨b, -, m, -, hbid, -, -, hfence⟩ := routeTimeout_eq_some hroute
  obtain ⟨d, hd, hfollows, hadmitted⟩ := timeoutEnding_eq_ok hA (by simp [hdue.unexpired]) hact
  have hid : a.id = id := by rw [hA.attempt_id, hfence, ← hbid]
  obtain rfl := hA.lease_scope
  obtain rfl := hA.fence_eq
  exact .inr ⟨_, .timedOut d hA hid hdue hd hadmitted, hfollows⟩

theorem endExpiredLease_eq_ok (h : endExpiredLease env id db = .ok e) :
    e = .skipped ∨ ∃ v, OwedRecovery env id db v ∧ e.Follows db v := by
  unfold endExpiredLease at h
  split at h
  · exact .inl (pure_eq_ok.mp h).symm
  next m hroute =>
  rcases endUnderLocks_eq_ok h with rfl | ⟨s, j, a, l, hA, hact⟩
  · exact .inl rfl
  obtain rfl : l = m :=
    db.lease_eq_of_id hA.lease_mem (List.mem_of_find?_eq_some hroute) hA.lease_id
  have hid : l.id = id := by simpa using List.find?_some hroute
  simp only [expiryEnding, ite_eq_ok, bind_eq_ok, pure_eq_ok, checked_eq_ok] at hact
  rcases hact with ⟨-, rfl⟩ | ⟨hopen, ⟨-, rfl⟩ | ⟨hatt, hact⟩⟩
  · exact .inl rfl
  · exact .inl rfl
  rw [not_or, not_not] at hopen
  have hlapsed : Lapsed env.clock.s₀ a l :=
    ⟨hopen.1, not_lt.mp hopen.2, by simpa [FenceState.ofRows] using hatt⟩
  rcases hact with ⟨hjob, ⟨r, db'⟩, hfin, rfl⟩ | ⟨-, ⟨-, rfl⟩ | ⟨hexec, hact⟩⟩
  · obtain ⟨hj, ha, hl, -, happ⟩ := finalizeCancellation_eq_ok hA hfin
    refine .inr ⟨none, .other hA hid hlapsed (.canceled hjob) (.inl hjob)
      (happ.admitted ?_ ?_ ?_), rfl, ⟨j, hA.job_mem, _, happ.jobs, rfl, rfl, .inr hj⟩,
      ⟨a, hA.attempt_mem, _, happ.attempts, rfl, rfl, ha⟩,
      ⟨l, hA.lease_mem, _, happ.leases, rfl, rfl, hl⟩⟩
    · rintro _ _ ⟨⟩
      exact hA.job_mem
    · rintro _ _ ⟨⟩
      exact hA.attempt_mem
    · rintro _ _ ⟨⟩
      exact hA.lease_mem
  · exact .inl rfl
  have hjob : isExecutingJobStatus j.status = true := by simpa [FenceState.ofRows] using hexec
  rcases hact with ⟨ht, hfin⟩ | ⟨ht, d, hd, ⟨r, db'⟩, hfin, rfl⟩
  · obtain ⟨d, hd, hfollows, hadmitted⟩ := timeoutEnding_eq_ok hA ⟨fun _ => hopen, fun _ => rfl⟩ hfin
    exact .inr ⟨_, .timedOut d hA hid hlapsed hjob (timedOutBeforeLapse_ofRows.mp ht).1 hd hadmitted,
      hfollows⟩
  · have hnot : ¬ OutlivedDeadline a l := fun ho =>
      ht (timedOutBeforeLapse_ofRows.mpr ⟨ho, overdue_of_outlived hlapsed.expired ho⟩)
    obtain ⟨hstatus, hclosing, hadmitted⟩ := finalizeAttempt_closing hA hfin
    -- An abandoned attempt waits for nothing.
    have hdelay : ¬ 0 < storedMillis d := by
      simp [storedMillis, (decide_sound hd).abandoned_now rfl]
    refine .inr ⟨none, .other hA hid hlapsed (.abandoned d hjob hnot hd) (.inr hnot) hadmitted,
      rfl, hstatus ▸ hclosing, ?_⟩
    rw [hstatus, Decision.jobStatus, if_neg hdelay]
    split_ifs
    · exact .inl rfl
    · exact .inr rfl

theorem endDueTimeout_settles : Settles endDueTimeout OwedTimeout where
  ends := endDueTimeout_eq_ok
  settled {env id db v} h := by
    obtain @⟨s, j, a, l, d, hA, rfl, hdue, hd, hadmitted⟩ := h
    have htally := reconcileDueTimeout_eq env a.id .zero db
    cases hend : endDueTimeout env a.id db with
    | error f =>
      rw [hend] at htally
      obtain ⟨s', j', a', l', d', hB, haid, -, hd', href⟩ :=
        reconcileDueTimeout_forced (reconcileDueTimeout_cause hA htally) htally
      obtain ⟨rfl, rfl, rfl, rfl⟩ := hB.eq_of_attempt hA haid
      cases hd.symm.trans hd'
      obtain ⟨r, hr, -⟩ := href.of_admitted hadmitted rfl
      cases hr
    | ok e =>
      refine ⟨e, rfl, ?_⟩
      rcases endDueTimeout_eq_ok hend with rfl | ⟨v, ⟨d', hB, haid, -, hd', -⟩, hfollows⟩
      · rw [hend] at htally
        rcases reconcileDueTimeout_eq_ok htally with ⟨-, -, hnot⟩ | ⟨hskip, -⟩
        · exact absurd hdue (hnot s j a l rfl hA)
        · cases hskip
      · obtain ⟨rfl, rfl, rfl, rfl⟩ := hB.eq_of_attempt hA haid
        cases hd.symm.trans hd'
        exact hfollows

/-- The run owed a recovery decides what is owed. -/
theorem OwedRecovery.unique {v v' : Option Decision} (h : OwedRecovery env id db v)
    (h' : OwedRecovery env id db v') : v = v' := by
  have hnot : ∀ {j : Job} {a : JobAttempt} {l : Lease}, isExecutingJobStatus j.status = true →
      OutlivedDeadline a l → ¬ (j.status = .cancelRequested ∨ ¬ OutlivedDeadline a l) := by
    rintro j a l hexec hout (hc | hn)
    · rw [hc] at hexec
      cases hexec
    · exact hn hout
  cases h with
  | timedOut d hA hid _ hjob hout hd =>
    cases h' with
    | timedOut d' hB hid' _ _ _ hd' =>
      obtain ⟨-, rfl, rfl, rfl⟩ := hB.eq_of_lease hA (hid'.trans hid.symm)
      cases hd.symm.trans hd'
      rfl
    | other hB hid' _ _ huntimed =>
      obtain ⟨-, rfl, rfl, rfl⟩ := hB.eq_of_lease hA (hid'.trans hid.symm)
      exact absurd huntimed (hnot hjob hout)
  | other hA hid _ _ huntimed =>
    cases h' with
    | timedOut d' hB hid' _ hjob hout =>
      obtain ⟨-, rfl, rfl, rfl⟩ := hB.eq_of_lease hA (hid'.trans hid.symm)
      exact absurd huntimed (hnot hjob hout)
    | other => rfl

/-- What is owed is a verdict on a lapsed lease, in rows that the tables admit. -/
theorem OwedRecovery.verdict {v : Option Decision} (h : OwedRecovery env id db v) :
    ∃ s j a l w, Authority db l.scope l.fence s j a l ∧ l.id = id ∧ Lapsed env.clock.s₀ a l ∧
      Verdict env l.scope j a l w ∧ w.Admitted db := by
  cases h with
  | timedOut d hA hid hlapsed hjob hout hd hadmitted =>
    exact ⟨_, _, _, _, _, hA, hid, hlapsed, .timedOut d hjob hout hd, hadmitted⟩
  | other hA hid hlapsed hverdict _ hadmitted =>
    exact ⟨_, _, _, _, _, hA, hid, hlapsed, hverdict, hadmitted⟩

theorem endExpiredLease_settles : Settles endExpiredLease OwedRecovery where
  ends := endExpiredLease_eq_ok
  settled {env id db v} h := by
    obtain ⟨s, j, a, l, w, hA, rfl, hlapsed, hverdict, hadmitted⟩ := h.verdict
    have htally := reconcileExpiredLease_eq env l.id .zero db
    cases hend : endExpiredLease env l.id db with
    | error f =>
      rw [hend] at htally
      obtain ⟨s', j', a', l', w', hB, hlid, -, hverdict', href⟩ :=
        reconcileExpiredLease_forced (reconcileExpiredLease_cause hA htally) htally
      obtain ⟨rfl, rfl, rfl, rfl⟩ := hB.eq_of_lease hA hlid
      obtain rfl := hverdict.unique hverdict'
      obtain ⟨r, hr, -⟩ := href.of_admitted hadmitted hverdict.records.1
      rw [hverdict.records.2] at hr
      cases hr
    | ok e =>
      refine ⟨e, rfl, ?_⟩
      rcases endExpiredLease_eq_ok hend with rfl | ⟨v', hv', hfollows⟩
      · rw [hend] at htally
        rcases reconcileExpiredLease_eq_ok htally with ⟨-, -, hnot⟩ | ⟨hskip, -⟩
        · exact absurd ⟨hlapsed, hverdict.job⟩ (hnot s j a l rfl hA)
        · cases hskip
      · rwa [h.unique hv']

end Endings

/-! ## Exactness

A turn miscounts when it is owed something and the reply to its `COMMIT` is lost: what
it changed is not counted. A timeout, counted before its `COMMIT`, also miscounts when
that is rolled back, or goes through and sends the job straight back to its queue. -/

/-- The turn is owed something that the fault, or the decided delay, makes it miscount. -/
def Miscounts (owed : Env → UUID → DB → Option Decision → Prop) (x : Handling) : Prop :=
  ∃ v, owed x.env x.id x.db v ∧ ((∃ f, x.fault = .reply f) ∨ ∃ d, v = some d ∧
    ((∃ f, x.fault = .commit f) ∨ (x.fault = .none ∧ d.retry = true ∧ ¬ 0 < storedMillis d)))

/-- What counts run ahead of changes, so weighted that no miscount makes up for another:
a job counted too many weighs one, a closed attempt or lease left out two. -/
def skew (v : Counter → Int) : Int :=
  v .retryWaitingJobs + v .deadLetteredJobs - 2 * (v .expiredLeases + v .timedOutAttempts)

section Turns

variable {finish : Env → UUID → DB → Tx Ending} {owed : Env → UUID → DB → Option Decision → Prop}
  {x : Handling} (stats : ReconcileStats)

theorem Decision.requeues {d : Decision} (h : d.jobStatus = .queued) :
    d.retry = true ∧ ¬ 0 < storedMillis d := by
  unfold Decision.jobStatus at h
  split_ifs at h with hretry hpos
  exact ⟨hretry, hpos⟩

theorem Decision.jobStatus_cases (d : Decision) :
    d.jobStatus = .queued ∨ d.jobStatus = .retryWait ∨ d.jobStatus = .deadLettered := by
  unfold Decision.jobStatus
  split_ifs <;> simp

/-- A committed ending is counted as it is, if it is no timeout that requeues. -/
theorem Ending.committed_count {db : DB} {e : Ending} {v : Option Decision} (h : e.Follows db v)
    (hrequeue : ∀ d, v = some d → d.jobStatus ≠ .queued) (c : Counter) :
    (e.committed stats).count c = stats.count c + moved db (e.db db) c := by
  cases e with
  | skipped => exact h.elim
  | timedOut lapsed job db' =>
    obtain ⟨hjob, hclosing⟩ := h
    obtain ⟨d, rfl, rfl⟩ := Option.map_eq_some_iff.mp hjob
    rw [show (Ending.timedOut lapsed d.jobStatus db').db db = db' from rfl, hclosing.moved_eq]
    rcases d.jobStatus_cases with hs | hs | hs <;> rw [hs]
    · exact absurd hs (hrequeue d rfl)
    · cases c <;> cases lapsed <;> rfl
    · cases c <;> cases lapsed <;> rfl
  | canceled db' =>
    rw [show (Ending.canceled db').db db = db' from rfl, h.2.moved_eq]
    cases c <;> rfl
  | abandoned job db' =>
    obtain ⟨-, hclosing, hjob⟩ := h
    rw [show (Ending.abandoned job db').db db = db' from rfl, hclosing.moved_eq]
    rcases hjob with rfl | rfl
    · cases c <;> rfl
    · cases c <;> rfl

/-- A turn that does not miscount adds to each counter what it changed. -/
theorem Handling.outcome_exact (hs : Settles finish owed) (h : ¬ Miscounts owed x) (c : Counter) :
    (x.outcome stats (finish x.env x.id x.db)).stats.count c
      = stats.count c + moved x.db (x.outcome stats (finish x.env x.id x.db)).db c := by
  have hsame : stats.count c = stats.count c + moved x.db x.db c := by rw [moved_self, Nat.add_zero]
  have hskip : stats.skip.count c = stats.count c := by cases c <;> rfl
  obtain ⟨env, id, db, fault⟩ := x
  dsimp only at hsame ⊢
  unfold Handling.outcome
  cases hfinish : finish env id db with
  | error f => cases fault <;> exact hsame
  | ok e =>
    rcases hs.ends hfinish with rfl | ⟨v, hv, hfollows⟩
    · cases fault with
      | statement f => exact hsame
      | none | commit | reply => exact hskip.trans hsame
    cases fault with
    | statement f => exact hsame
    | reply f => exact absurd ⟨v, hv, .inl ⟨f, rfl⟩⟩ h
    | commit f =>
      cases e with
      | skipped => exact hfollows.elim
      | timedOut lapsed job db' =>
        obtain ⟨d, rfl, -⟩ := Option.map_eq_some_iff.mp hfollows.1
        exact absurd ⟨some d, hv, .inr ⟨d, rfl, .inl ⟨f, rfl⟩⟩⟩ h
      | canceled | abandoned => exact hsame
    | none =>
      have hcount := Ending.committed_count stats hfollows
        (fun d hd hqueued => h ⟨v, hv, .inr ⟨d, hd, .inr ⟨rfl, Decision.requeues hqueued⟩⟩⟩) c
      cases e with
      | skipped => exact hfollows.elim
      | timedOut | canceled | abandoned => exact hcount

/-- A turn that miscounts runs ahead. -/
theorem Handling.outcome_skew (hs : Settles finish owed) (h : Miscounts owed x) :
    0 < skew fun c => ((x.outcome stats (finish x.env x.id x.db)).stats.count c : Int)
      - stats.count c - moved x.db (x.outcome stats (finish x.env x.id x.db)).db c := by
  obtain ⟨v, hv, hfault⟩ := h
  obtain ⟨e, hfinish, hfollows⟩ := hs.settled hv
  rw [hfinish]
  obtain ⟨env, id, db, fault⟩ := x
  dsimp only at hfault ⊢
  rcases hfault with ⟨f, rfl⟩ | ⟨d, rfl, hfault⟩
  · -- The run is closed, and its attempt or lease is not counted.
    cases e with
    | skipped => exact hfollows.elim
    | timedOut lapsed job db' =>
      obtain ⟨hjob, hclosing⟩ := hfollows
      simp only [skew, Handling.outcome, Ending.db, hclosing.moved_eq, closingCount, Ending.counted]
      split_ifs <;> simp_all [ReconcileStats.count]
    | canceled db' =>
      simp only [skew, Handling.outcome, Ending.db, hfollows.2.moved_eq, closingCount,
        Ending.counted]
      simp
    | abandoned job db' =>
      obtain ⟨-, hclosing, rfl | rfl⟩ := hfollows
      · simp [skew, Handling.outcome, Ending.db, hclosing.moved_eq, closingCount, Ending.counted]
      · simp [skew, Handling.outcome, Ending.db, hclosing.moved_eq, closingCount, Ending.counted]
  cases e with
  | skipped => exact hfollows.elim
  | canceled | abandoned => cases hfollows.1
  | timedOut lapsed job db' =>
    obtain ⟨hjob, hclosing⟩ := hfollows
    rw [Option.map_some, Option.some.injEq] at hjob
    rcases hfault with ⟨f, rfl⟩ | ⟨rfl, hretry, hzero⟩
    · -- The job is counted, and rolled back.
      simp only [skew, Handling.outcome, moved_self, Ending.counted]
      split_ifs <;> simp [ReconcileStats.count]
    · -- The job is counted as one that waits, and went back to its queue.
      obtain rfl : job = .queued := by rw [← hjob, Decision.jobStatus, if_pos hretry, if_neg hzero]
      simp only [skew, Handling.outcome, Ending.db, hclosing.moved_eq, closingCount,
        Ending.committed, Ending.counted]
      cases lapsed <;> simp [ReconcileStats.count]

end Turns

section Passes

variable {finish : Env → UUID → DB → Tx Ending} {owed : Env → UUID → DB → Option Decision → Prop}

/-- A pass none of whose turns miscounts adds what they changed. -/
theorem reconcilePass_exact (hs : Settles finish owed) (xs : List Handling) (stats : ReconcileStats)
    (h : ∀ x ∈ (reconcilePass finish xs stats).turns, ¬ Miscounts owed x.1) (c : Counter) :
    (reconcilePass finish xs stats).stats.count c
      = stats.count c + ((reconcilePass finish xs stats).turns.map fun x => moved x.1.db x.2 c).sum := by
  induction xs generalizing stats with
  | nil => rfl
  | cons x xs ih =>
    have hturn := fun hx => x.outcome_exact stats hs hx c
    unfold reconcilePass at h ⊢
    rcases hout : x.outcome stats (finish x.env x.id x.db) with ⟨stats', db', _ | f⟩
    · simp only [hout] at h hturn ⊢
      have hrest := ih stats' fun y hy => h y (List.mem_cons_of_mem _ hy)
      rw [hrest, hturn (h _ List.mem_cons_self), List.map_cons, List.sum_cons, Nat.add_assoc]
    · simp only [hout] at h hturn ⊢
      rw [hturn (h _ List.mem_cons_self), List.map_cons, List.map_nil, List.sum_singleton]

/-- What a pass adds to a counter beyond what its turns changed. -/
def surplus (report : PassReport) (stats : ReconcileStats) (c : Counter) : Int :=
  report.stats.count c - stats.count c - (report.turns.map fun x => moved x.1.db x.2 c).sum

/-- A pass never falls behind, and a turn that miscounts puts it ahead for good. -/
theorem reconcilePass_skew (hs : Settles finish owed) (xs : List Handling) (stats : ReconcileStats) :
    0 ≤ skew (surplus (reconcilePass finish xs stats) stats) ∧
      ∀ x ∈ (reconcilePass finish xs stats).turns, Miscounts owed x.1 →
        0 < skew (surplus (reconcilePass finish xs stats) stats) := by
  induction xs generalizing stats with
  | nil => exact ⟨by simp [skew, surplus, reconcilePass], by rintro _ ⟨⟩⟩
  | cons x xs ih =>
    have hlt := x.outcome_skew stats hs
    have hzero := fun hx c => x.outcome_exact stats hs hx c
    have hle : 0 ≤ skew fun c => ((x.outcome stats (finish x.env x.id x.db)).stats.count c : Int)
        - stats.count c - moved x.db (x.outcome stats (finish x.env x.id x.db)).db c := by
      by_cases hmis : Miscounts owed x
      · exact (hlt hmis).le
      · simp [skew, hzero hmis]
    unfold reconcilePass
    rcases hout : x.outcome stats (finish x.env x.id x.db) with ⟨stats', db', _ | f⟩
    · simp only [hout, skew, surplus, List.map_cons, List.sum_cons, List.mem_cons] at hle hlt ih ⊢
      obtain ⟨hrest, hmore⟩ := ih stats'
      push_cast at *
      refine ⟨by omega, ?_⟩
      rintro y (rfl | hy) hmis
      · have hfirst := hlt hmis
        omega
      · have hlater := hmore y hy hmis
        omega
    · simp only [hout, skew, surplus, List.map_cons, List.map_nil, List.sum_singleton,
        List.mem_singleton] at hle hlt ⊢
      refine ⟨hle, ?_⟩
      rintro y rfl hmis
      exact hlt hmis

theorem exact_iff (hs : Settles finish owed) (xs : List Handling) :
    Exact (reconcilePass finish xs .zero) ↔
      ∀ x ∈ (reconcilePass finish xs .zero).turns, ¬ Miscounts owed x.1 := by
  constructor
  · intro hexact x hx hmis
    have hover := (reconcilePass_skew hs xs .zero).2 x hx hmis
    have hnone : ∀ c, surplus (reconcilePass finish xs .zero) .zero c = 0 := by
      intro c
      unfold surplus
      rw [hexact c]
      cases c <;> simp [ReconcileStats.count, ReconcileStats.zero]
    simp [skew, hnone] at hover
  · intro hnone c
    rw [reconcilePass_exact hs xs .zero hnone c]
    cases c <;> exact Nat.zero_add _

end Passes

/-- **The counts of a pass are exact but for timeouts that fail to commit or requeue, and
for turns whose `COMMIT` goes through unheard.** -/
theorem reconcile_stats_exact_iff (xs : List Handling) :
    (Exact (reconcilePass endDueTimeout xs .zero) ↔
      ∀ x ∈ (reconcilePass endDueTimeout xs .zero).turns, ¬ Miscounts OwedTimeout x.1) ∧
    (Exact (reconcilePass endExpiredLease xs .zero) ↔
      ∀ x ∈ (reconcilePass endExpiredLease xs .zero).turns, ¬ Miscounts OwedRecovery x.1) :=
  ⟨exact_iff endDueTimeout_settles xs, exact_iff endExpiredLease_settles xs⟩

/-- A job with a timeout of a second runs. -/
def shortRun : List Request :=
  [⟨envAt 1 1 0, .register "tenant" ⟨7, "worker", "host", "workers", 2, [], ["email"], none⟩⟩,
    ⟨envAt 2 2 3, .submit "tenant" "key"
      ⟨"default", "email", "\x7b\x7d", 5, 3, 1, [], none⟩ ⟨"", ""⟩⟩,
    ⟨envAt 3 4 5, .claim "tenant" ⟨1, 7, 6, "default"⟩⟩,
    ⟨envAt 4 0 0, .start "tenant" sampleFence⟩]

/-- Its timeout is due. When the commit fails, a job is counted as waiting for its retry
that is still running; when the backoff comes to nothing, one that is queued again. When
only the reply to the commit is lost, the attempt that timed out is not counted. -/
theorem timeouts_miscounted :
    Reachable (quiet.exec shortRun).2 ∧
      ¬ Exact (reconcilePass endDueTimeout [⟨envAt 2000000 50 51, 4, (quiet.exec shortRun).2.db,
        .commit ⟨.failed "commit attempt timeout", .check⟩⟩] .zero) ∧
      ¬ Exact (reconcilePass endDueTimeout
        [⟨{ envAt 2000000 50 51 with backoff := fun _ => .finite 0 }, 4, (quiet.exec shortRun).2.db,
          .none⟩] .zero) ∧
      ¬ Exact (reconcilePass endDueTimeout [⟨envAt 2000000 50 51, 4, (quiet.exec shortRun).2.db,
        .reply ⟨.failed "commit attempt timeout", .check⟩⟩] .zero) := by
  refine ⟨quiet_reachable (by decide), ?_⟩
  rw [← not_or, ← not_or]
  intro h
  have hcount := h.imp (fun h => h .retryWaitingJobs)
    (Or.imp (fun h => h .retryWaitingJobs) fun h => h .timedOutAttempts)
  revert hcount
  decide +kernel

end TaskForge
