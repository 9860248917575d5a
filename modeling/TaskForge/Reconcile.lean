/-
What the reconciler does to one candidate: `reconcileDueTimeout` and
`reconcileExpiredLease` (`internal/workers/timeout.go`, `reconcile.go`).

Both start from a scanned id, route it to a fence without a lock, lock the same
rows a worker's report locks (without asking for a healthy session) and decide
again under the locks. A candidate that no longer qualifies is skipped: the
transaction writes nothing and the pass counts it.
-/
import TaskForge.Reports

open Relational Fallible

namespace TaskForge

/-! ## Routing and skipping -/

/-- One more candidate skipped. -/
def ReconcileStats.skip (stats : ReconcileStats) : ReconcileStats :=
  { stats with skipped := stats.skipped + 1 }

/-- `lockFenceForReconciliation`: the rows of `lockAuthorityRows`, whatever the
session's health. -/
def lockFenceForReconciliation (db : DB) (scope : String) (fence : Fence) (now : Int) :
    Tx FenceState := lockAuthorityRows db scope fence now

/-- Lock the rows of a candidate and act on them. A rejected fence is a skipped
candidate, not an error. -/
def underLocks (env : Env) (scope : String) (fence : Fence) (stats : ReconcileStats) (db : DB)
    (act : FenceState → Tx (ReconcileStats × DB)) : Tx (ReconcileStats × DB) :=
  match lockFenceForReconciliation db scope fence env.clock.s₀ with
  | .ok state => act state
  | .error f => if f.error = .fenceRejected then pure (stats.skip, db) else .error f

/-- The fence and scope a due timeout is routed to. -/
def routeTimeout (db : DB) (attemptID : UUID) : Option (String × Fence) := do
  let a ← db.attempts.rows.find? fun a => a.id == attemptID
  let l ← db.leases.rows.find? fun l => l.attemptID == a.id
  some (a.scope, ⟨a.jobID, a.id, l.id, a.workerID, a.workerSessionID⟩)

/-! ## Timeouts -/

/-- The outcome a timeout records. -/
def timeoutOutcome (leaseStatus : LeaseStatus) : AttemptOutcome :=
  ⟨.timedOut, .timedOut, codeTimeout, messageTimeout, none, leaseStatus⟩

/-- `finalizeTimeout` -/
def finalizeTimeout (env : Env) (db : DB) (state : FenceState) (fence : Fence)
    (stats : ReconcileStats) : Tx (ReconcileStats × DB) := do
  let decision ← checked (env.retryPolicy.decide .timedOut state.attemptNumber
    state.attemptNumber state.maxAttempts env.backoff) .failed
  let leaseStatus :=
    if state.leaseStatus = .active ∧ ¬ state.serverNow < state.expiresAt then LeaseStatus.expired
    else .released
  let (result, db') ← finalizeAttempt env db state fence (timeoutOutcome leaseStatus) decision
  if result.jobStatus = .deadLettered then
    pure ({ stats with deadLetteredJobs := stats.deadLetteredJobs + 1 }, db')
  else
    pure ({ stats with retryWaitingJobs := stats.retryWaitingJobs + 1 }, db')

/-- `reconcileDueTimeout`, once its rows are locked. -/
def timeoutUnderLocks (env : Env) (fence : Fence) (stats : ReconcileStats) (db : DB)
    (state : FenceState) : Tx (ReconcileStats × DB) :=
  if !state.leaseUsable || !state.timedOut || state.jobStatus != .running ||
      state.attemptStatus != .running then
    pure (stats.skip, db)
  else do
    let (stats', db') ← finalizeTimeout env db state fence stats
    pure ({ stats' with timedOutAttempts := stats'.timedOutAttempts + 1 }, db')

/-- `reconcileDueTimeout` -/
def reconcileDueTimeout (env : Env) (attemptID : UUID) (stats : ReconcileStats) (db : DB) :
    Tx (ReconcileStats × DB) :=
  match routeTimeout db attemptID with
  | none => pure (stats.skip, db)
  | some (scope, fence) =>
    underLocks env scope fence stats db (timeoutUnderLocks env fence stats db)

/-! ## Expired leases -/

/-- The outcome an abandonment records. -/
def abandonedOutcome : AttemptOutcome :=
  ⟨.abandoned, .abandoned, codeAbandoned, messageAbandoned, none, .expired⟩

/-- `reconcileExpiredLease`, once its rows are locked. -/
def expiryUnderLocks (env : Env) (fence : Fence) (stats : ReconcileStats) (db : DB)
    (state : FenceState) : Tx (ReconcileStats × DB) :=
  if state.leaseStatus ≠ .active ∨ state.serverNow < state.expiresAt then pure (stats.skip, db)
  else if !isExecutingAttemptStatus state.attemptStatus then pure (stats.skip, db)
  -- Cancellation first, then a timeout the lease outlived, then abandonment.
  else if state.jobStatus = .cancelRequested then do
    let (_, db') ← finalizeCancellation db state fence none .expired
    pure ({ stats with
      expiredLeases := stats.expiredLeases + 1
      canceledAttempts := stats.canceledAttempts + 1 }, db')
  else if !isExecutingJobStatus state.jobStatus then pure (stats.skip, db)
  else if state.timedOutBeforeLapse then do
    let (stats', db') ← finalizeTimeout env db state fence stats
    pure ({ stats' with
      expiredLeases := stats'.expiredLeases + 1
      timedOutAttempts := stats'.timedOutAttempts + 1 }, db')
  else do
    let decision ← checked (env.retryPolicy.decide .abandoned state.attemptNumber
      state.attemptNumber state.maxAttempts env.backoff) .failed
    let (result, db') ← finalizeAttempt env db state fence abandonedOutcome decision
    if result.jobStatus = .queued then
      pure ({ stats with
        expiredLeases := stats.expiredLeases + 1
        requeuedJobs := stats.requeuedJobs + 1 }, db')
    else
      pure ({ stats with
        expiredLeases := stats.expiredLeases + 1
        deadLetteredJobs := stats.deadLetteredJobs + 1 }, db')

/-- `reconcileExpiredLease` -/
def reconcileExpiredLease (env : Env) (leaseID : UUID) (stats : ReconcileStats) (db : DB) :
    Tx (ReconcileStats × DB) :=
  match db.leases.rows.find? fun l => l.id == leaseID with
  | none => pure (stats.skip, db)
  | some l => underLocks env l.scope l.fence stats db (expiryUnderLocks env l.fence stats db)

/-! ## What they need and write -/

/-- The attempt's deadline is set and has come. -/
def Overdue (now : Int) (a : JobAttempt) : Prop := ∃ t, a.timeoutAt = some t ∧ t ≤ now

/-- The lease lived to see the deadline: the deadline is set, and `expires_at` is
at or after it. -/
def OutlivedDeadline (a : JobAttempt) (l : Lease) : Prop :=
  ∃ t, a.timeoutAt = some t ∧ t ≤ l.expiresAt

section Spec

variable {env : Env} {db db' : DB} {scope : String} {fence : Fence} {s : WorkerSession} {j : Job}
  {a : JobAttempt} {l : Lease} {stats stats' : ReconcileStats} {f : Failure}
variable {now : Int} {act : FenceState → Tx (ReconcileStats × DB)} {attemptID leaseID : UUID}
  {w : Writes}

theorem timedOut_ofRows_true :
    (FenceState.ofRows scope s j a l now).timedOut = true ↔ Overdue now a := by
  show (a.timeoutAt.any fun t => decide (t ≤ now)) = true ↔ _
  unfold Overdue
  cases a.timeoutAt <;> simp

theorem timedOutBeforeLapse_ofRows :
    (FenceState.ofRows scope s j a l now).timedOutBeforeLapse = true ↔
      OutlivedDeadline a l ∧ Overdue now a := by
  unfold FenceState.timedOutBeforeLapse
  rw [Bool.and_eq_true, timedOut_ofRows_true]
  show (a.timeoutAt.any fun t => decide (t ≤ l.expiresAt)) = true ∧ _ ↔ _
  unfold OutlivedDeadline
  cases a.timeoutAt <;> simp

theorem underLocks_eq_ok (h : underLocks env scope fence stats db act = .ok (stats', db')) :
    (db' = db ∧ stats' = stats.skip ∧ ∀ s j a l, ¬ Authority db scope fence s j a l) ∨
      ∃ s j a l, Authority db scope fence s j a l ∧
        act (FenceState.ofRows scope s j a l env.clock.s₀) = .ok (stats', db') := by
  unfold underLocks lockFenceForReconciliation at h
  cases hlock : lockAuthorityRows db scope fence env.clock.s₀ with
  | ok state =>
    rw [hlock] at h
    obtain ⟨s, j, a, l, hA, rfl⟩ := lockAuthorityRows_eq_ok.mp hlock
    exact .inr ⟨s, j, a, l, hA, h⟩
  | error f =>
    rw [hlock] at h
    dsimp only at h
    split_ifs at h
    obtain ⟨rfl, rfl⟩ := Prod.mk.inj (pure_eq_ok.mp h)
    refine .inl ⟨rfl, rfl, fun s j a l hA => ?_⟩
    rw [lockAuthorityRows_eq_ok.mpr ⟨s, j, a, l, hA, rfl⟩] at hlock
    cases hlock

theorem underLocks_forced (hf : f.cause ≠ .check)
    (h : underLocks env scope fence stats db act = .error f) :
    ∃ s j a l, Authority db scope fence s j a l ∧
      act (FenceState.ofRows scope s j a l env.clock.s₀) = .error f := by
  unfold underLocks lockFenceForReconciliation at h
  cases hlock : lockAuthorityRows db scope fence env.clock.s₀ with
  | ok state =>
    rw [hlock] at h
    obtain ⟨s, j, a, l, hA, rfl⟩ := lockAuthorityRows_eq_ok.mp hlock
    exact ⟨s, j, a, l, hA, h⟩
  | error g =>
    rw [hlock] at h
    dsimp only at h
    split_ifs at h
    · exact absurd h pure_ne_error.mp
    · cases h
      exact absurd hlock (lockAuthorityRows_forced hf).mp

/-- On the stored binding the candidate is acted on. -/
theorem underLocks_of_authority (hA : Authority db scope fence s j a l) :
    underLocks env scope fence stats db act
      = act (FenceState.ofRows scope s j a l env.clock.s₀) := by
  unfold underLocks lockFenceForReconciliation
  rw [lockAuthorityRows_eq_ok.mpr ⟨s, j, a, l, hA, rfl⟩]

theorem finalizeTimeout_eq_ok (hA : Authority db scope fence s j a l)
    (h : finalizeTimeout env db (FenceState.ofRows scope s j a l env.clock.s₀) fence stats
      = .ok (stats', db')) :
    stats'.skipped = stats.skipped ∧
      ∃ d, env.retryPolicy.decide .timedOut a.attemptNumber a.attemptNumber j.maxAttempts
          env.backoff = .ok d ∧
        (finalizeWrites env scope
          (timeoutOutcome (if l.status = .active ∧ ¬ env.clock.s₀ < l.expiresAt then .expired
            else .released)) d env.clock.s₀ j a l).Applied db db' := by
  simp only [finalizeTimeout, bind_eq_ok, checked_eq_ok, ite_eq_ok, pure_eq_ok,
    Prod.mk.injEq] at h
  obtain ⟨d, hd, ⟨r, db₁⟩, hfin, hrest⟩ := h
  obtain ⟨-, -, -, -, happ⟩ := finalizeAttempt_eq_ok hA hfin
  rcases hrest with ⟨-, rfl, rfl⟩ | ⟨-, rfl, rfl⟩
  · exact ⟨rfl, d, hd, happ⟩
  · exact ⟨rfl, d, hd, happ⟩

theorem finalizeTimeout_forced (hf : f.cause ≠ .check) (hA : Authority db scope fence s j a l)
    (hj : isExecutingJobStatus j.status = true) (ha : isExecutingAttemptStatus a.status = true)
    (hl : l.status = .active)
    (h : finalizeTimeout env db (FenceState.ofRows scope s j a l env.clock.s₀) fence stats
      = .error f) :
    ∃ d, env.retryPolicy.decide .timedOut a.attemptNumber a.attemptNumber j.maxAttempts
        env.backoff = .ok d ∧
      (finalizeWrites env scope
        (timeoutOutcome (if l.status = .active ∧ ¬ env.clock.s₀ < l.expiresAt then .expired
          else .released)) d env.clock.s₀ j a l).Refused db f := by
  simp only [finalizeTimeout, bind_eq_error, checked_eq_ok, checked_forced hf, ite_eq_error,
    pure_ne_error, and_false, exists_false, or_false, false_or] at h
  obtain ⟨d, hd, hfin⟩ := h
  exact ⟨d, hd, finalizeAttempt_forced hf hA hj ha hl hfin⟩

/-! ### Due timeouts -/

/-- What a timeout needs: a usable lease, a running attempt, a deadline that has
come. -/
structure TimeoutDue (now : Int) (j : Job) (a : JobAttempt) (l : Lease) : Prop where
  active : l.status = .active
  unexpired : now < l.expiresAt
  overdue : Overdue now a
  job : j.status = .running
  attempt : a.status = .running

/-- What `timeoutUnderLocks` skips on. -/
theorem timeout_skipped_iff :
    (!(FenceState.ofRows scope s j a l now).leaseUsable ||
      !(FenceState.ofRows scope s j a l now).timedOut || j.status != .running ||
      a.status != .running) = true ↔ ¬ TimeoutDue now j a l := by
  rw [← not_iff_not, not_not]
  simp only [Bool.or_eq_true, Bool.not_eq_true', bne_iff_ne, not_or, not_not, Bool.not_eq_false,
    leaseUsable_ofRows, timedOut_ofRows_true]
  constructor
  · rintro ⟨⟨⟨⟨hl, hexp⟩, hdue⟩, hj⟩, ha⟩
    exact ⟨hl, hexp, hdue, hj, ha⟩
  · rintro ⟨hl, hexp, hdue, hj, ha⟩
    exact ⟨⟨⟨⟨hl, hexp⟩, hdue⟩, hj⟩, ha⟩

theorem timeoutUnderLocks_eq_ok (hA : Authority db scope fence s j a l)
    (h : timeoutUnderLocks env fence stats db (FenceState.ofRows scope s j a l env.clock.s₀)
      = .ok (stats', db')) :
    (db' = db ∧ stats' = stats.skip ∧ ¬ TimeoutDue env.clock.s₀ j a l) ∨
      (stats'.skipped = stats.skipped ∧ TimeoutDue env.clock.s₀ j a l ∧
        ∃ d, env.retryPolicy.decide .timedOut a.attemptNumber a.attemptNumber j.maxAttempts
            env.backoff = .ok d ∧
          (finalizeWrites env scope (timeoutOutcome .released) d env.clock.s₀ j a l).Applied
            db db') := by
  unfold timeoutUnderLocks at h
  split at h
  · next hguard =>
    obtain ⟨rfl, rfl⟩ := Prod.mk.inj (pure_eq_ok.mp h)
    exact .inl ⟨rfl, rfl, timeout_skipped_iff.mp hguard⟩
  · next hguard =>
    have hdue : TimeoutDue env.clock.s₀ j a l :=
      not_not.mp fun hn => hguard (timeout_skipped_iff.mpr hn)
    simp only [bind_eq_ok, pure_eq_ok, Prod.mk.injEq] at h
    obtain ⟨⟨stats₁, db₁⟩, hfin, rfl, rfl⟩ := h
    obtain ⟨hskip, d, hd, happ⟩ := finalizeTimeout_eq_ok hA hfin
    rw [if_neg (by simp [hdue.unexpired])] at happ
    exact .inr ⟨hskip, hdue, d, hd, happ⟩

theorem timeoutUnderLocks_forced (hf : f.cause ≠ .check) (hA : Authority db scope fence s j a l)
    (h : timeoutUnderLocks env fence stats db (FenceState.ofRows scope s j a l env.clock.s₀)
      = .error f) :
    TimeoutDue env.clock.s₀ j a l ∧
      ∃ d, env.retryPolicy.decide .timedOut a.attemptNumber a.attemptNumber j.maxAttempts
          env.backoff = .ok d ∧
        (finalizeWrites env scope (timeoutOutcome .released) d env.clock.s₀ j a l).Refused
          db f := by
  unfold timeoutUnderLocks at h
  split at h
  · exact absurd h pure_ne_error.mp
  · next hguard =>
    have hdue : TimeoutDue env.clock.s₀ j a l :=
      not_not.mp fun hn => hguard (timeout_skipped_iff.mpr hn)
    simp only [bind_eq_error, pure_ne_error, and_false, exists_false, or_false] at h
    obtain ⟨d, hd, href⟩ := finalizeTimeout_forced hf hA (by simp [isExecutingJobStatus, hdue.job])
      (by simp [isExecutingAttemptStatus, hdue.attempt]) hdue.active h
    rw [if_neg (by simp [hdue.unexpired])] at href
    exact ⟨hdue, d, hd, href⟩

/-- A due timeout is routed to the attempt's own lease. -/
theorem routeTimeout_eq_some (h : routeTimeout db attemptID = some (scope, fence)) :
    ∃ a ∈ db.attempts.rows, ∃ l ∈ db.leases.rows, a.id = attemptID ∧ l.attemptID = a.id ∧
      scope = a.scope ∧ fence = ⟨a.jobID, a.id, l.id, a.workerID, a.workerSessionID⟩ := by
  simp only [routeTimeout, Option.bind_eq_bind, Option.bind_eq_some_iff, Option.some.injEq,
    Prod.mk.injEq] at h
  obtain ⟨a, ha, l, hl, rfl, rfl⟩ := h
  obtain ⟨ham, haid⟩ := found_of_find? ha
  obtain ⟨hlm, hlid⟩ := found_of_find? hl
  exact ⟨a, ham, l, hlm, beq_iff_eq.mp haid,
    beq_iff_eq.mp hlid, rfl, rfl⟩

theorem Authority.routeTimeout_eq (hA : Authority db scope fence s j a l) :
    routeTimeout db a.id = some (scope, fence) := by
  have ha : (db.attempts.rows.find? fun b => b.id == a.id) = some a := by
    refine find?_eq_some_of_unique hA.attempt_mem (by simp) fun x hx hp => ?_
    exact db.attempt_eq_of_id hx hA.attempt_mem (beq_iff_eq.mp hp)
  have hl : (db.leases.rows.find? fun m => m.attemptID == a.id) = some l := by
    refine find?_eq_some_of_unique hA.lease_mem ?_ fun x hx hp => ?_
    · simp [hA.lease_attempt, hA.attempt_id]
    · refine db.lease_eq_of_attempt hx hA.lease_mem ?_
      rw [beq_iff_eq.mp hp, hA.attempt_id, hA.lease_attempt]
  simp only [routeTimeout, ha, hl, Option.bind_eq_bind, Option.bind_some, Option.some.injEq,
    Prod.mk.injEq]
  refine ⟨hA.attempt_scope, ?_⟩
  rw [hA.attempt_job, hA.attempt_id, hA.lease_id, hA.attempt_worker, hA.attempt_session]

theorem reconcileDueTimeout_eq_ok
    (h : reconcileDueTimeout env attemptID stats db = .ok (stats', db')) :
    (db' = db ∧ stats' = stats.skip ∧ ∀ s j a l, a.id = attemptID →
        Authority db l.scope l.fence s j a l → ¬ TimeoutDue env.clock.s₀ j a l) ∨
      (stats'.skipped = stats.skipped ∧ ∃ s j a l d,
        Authority db l.scope l.fence s j a l ∧ a.id = attemptID ∧
        TimeoutDue env.clock.s₀ j a l ∧
        env.retryPolicy.decide .timedOut a.attemptNumber a.attemptNumber j.maxAttempts env.backoff
          = .ok d ∧
        (finalizeWrites env l.scope (timeoutOutcome .released) d env.clock.s₀ j a l).Applied
          db db') := by
  unfold reconcileDueTimeout at h
  cases hroute : routeTimeout db attemptID with
  | none =>
    rw [hroute] at h
    obtain ⟨rfl, rfl⟩ := Prod.mk.inj (pure_eq_ok.mp h)
    refine .inl ⟨rfl, rfl, fun s j a l hid hA => ?_⟩
    rw [← hid, hA.routeTimeout_eq] at hroute
    cases hroute
  | some route =>
    obtain ⟨scope, fence⟩ := route
    rw [hroute] at h
    obtain ⟨b, -, m, -, hbid, -, -, rfl⟩ := routeTimeout_eq_some hroute
    rcases underLocks_eq_ok h with ⟨rfl, rfl, hnone⟩ | ⟨s, j, a, l, hA, hact⟩
    · refine .inl ⟨rfl, rfl, fun s j a l hid hA => ?_⟩
      rw [← hid, hA.routeTimeout_eq, Option.some.injEq, Prod.mk.injEq] at hroute
      obtain ⟨rfl, hfence⟩ := hroute
      exact absurd (hfence ▸ hA) (hnone s j a l)
    · have haid : a.id = attemptID := hA.attempt_id.trans hbid
      have hA' : Authority db l.scope l.fence s j a l := hA.lease_scope ▸ hA.fence_eq ▸ hA
      rcases timeoutUnderLocks_eq_ok hA hact with ⟨rfl, rfl, hnot⟩ | ⟨hskip, hdue, d, hd, happ⟩
      · refine .inl ⟨rfl, rfl, fun s' j' a' l' hid hB => ?_⟩
        obtain ⟨-, rfl, rfl, rfl⟩ := hB.eq_of_attempt hA' (hid.trans haid.symm)
        exact hnot
      · rw [← hA.lease_scope] at happ
        exact .inr ⟨hskip, s, j, a, l, d, hA', haid, hdue, hd, happ⟩

theorem reconcileDueTimeout_forced (hf : f.cause ≠ .check)
    (h : reconcileDueTimeout env attemptID stats db = .error f) :
    ∃ s j a l d, Authority db l.scope l.fence s j a l ∧ a.id = attemptID ∧
      TimeoutDue env.clock.s₀ j a l ∧
      env.retryPolicy.decide .timedOut a.attemptNumber a.attemptNumber j.maxAttempts env.backoff
        = .ok d ∧
      (finalizeWrites env l.scope (timeoutOutcome .released) d env.clock.s₀ j a l).Refused
        db f := by
  unfold reconcileDueTimeout at h
  cases hroute : routeTimeout db attemptID with
  | none =>
    rw [hroute] at h
    exact absurd h pure_ne_error.mp
  | some route =>
    obtain ⟨scope, fence⟩ := route
    rw [hroute] at h
    obtain ⟨b, -, m, -, hbid, -, -, rfl⟩ := routeTimeout_eq_some hroute
    obtain ⟨s, j, a, l, hA, hact⟩ := underLocks_forced hf h
    obtain ⟨hdue, d, hd, href⟩ := timeoutUnderLocks_forced hf hA hact
    rw [← hA.lease_scope] at href
    exact ⟨s, j, a, l, d, hA.lease_scope ▸ hA.fence_eq ▸ hA, hA.attempt_id.trans hbid, hdue, hd,
      href⟩

/-! ### Expired leases -/

/-- What the reconciler does to a lease that lapsed: one of three verdicts, and
what each writes. Cancellation goes before a timeout, a timeout before
abandonment. -/
inductive Verdict (env : Env) (scope : String) (j : Job) (a : JobAttempt) (l : Lease) :
    Writes → Prop where
  | canceled (job : j.status = .cancelRequested) :
      Verdict env scope j a l (cancellationWrites none .expired env.clock.s₀ j a l)
  | timedOut (d : Decision) (job : isExecutingJobStatus j.status = true)
      (outlived : OutlivedDeadline a l)
      (decision : env.retryPolicy.decide .timedOut a.attemptNumber a.attemptNumber j.maxAttempts
        env.backoff = .ok d) :
      Verdict env scope j a l
        (finalizeWrites env scope (timeoutOutcome .expired) d env.clock.s₀ j a l)
  | abandoned (d : Decision) (job : isExecutingJobStatus j.status = true)
      (lapsed : ¬ OutlivedDeadline a l)
      (decision : env.retryPolicy.decide .abandoned a.attemptNumber a.attemptNumber j.maxAttempts
        env.backoff = .ok d) :
      Verdict env scope j a l (finalizeWrites env scope abandonedOutcome d env.clock.s₀ j a l)

/-- An active lease that has run out, of an attempt that is still executing. -/
structure Lapsed (now : Int) (a : JobAttempt) (l : Lease) : Prop where
  active : l.status = .active
  expired : l.expiresAt ≤ now
  attempt : isExecutingAttemptStatus a.status = true

/-- A verdict is on a job that can be recovered. -/
theorem Verdict.job (h : Verdict env scope j a l w) :
    j.status = .cancelRequested ∨ isExecutingJobStatus j.status = true := by
  cases h with
  | canceled job => exact .inl job
  | timedOut _ job | abandoned _ job => exact .inr job

/-- A verdict records no identity. -/
theorem Verdict.records (h : Verdict env scope j a l w) :
    w.idempotency = [] ∧ w.replays = [] := by
  cases h with
  | canceled | timedOut | abandoned => exact ⟨rfl, rfl⟩

/-- The rows decide the verdict. -/
theorem Verdict.unique {w' : Writes} (h : Verdict env scope j a l w)
    (h' : Verdict env scope j a l w') : w = w' := by
  have hnot : j.status = .cancelRequested → ¬ isExecutingJobStatus j.status = true := by
    intro hc hexec
    rw [hc] at hexec
    cases hexec
  cases h with
  | canceled job =>
    cases h' with
    | canceled => rfl
    | timedOut _ job' | abandoned _ job' => exact absurd job' (hnot job)
  | timedOut d job outlived decision =>
    cases h' with
    | canceled job' => exact absurd job (hnot job')
    | timedOut d' _ _ decision' =>
      cases decision.symm.trans decision'
      rfl
    | abandoned _ _ lapsed => exact absurd outlived lapsed
  | abandoned d job lapsed decision =>
    cases h' with
    | canceled job' => exact absurd job (hnot job')
    | timedOut _ _ outlived => exact absurd outlived lapsed
    | abandoned d' _ _ decision' =>
      cases decision.symm.trans decision'
      rfl

/-- Once the lease has run out, a deadline it lived to see has come. -/
theorem overdue_of_outlived (hexp : l.expiresAt ≤ now) (h : OutlivedDeadline a l) :
    Overdue now a := by
  obtain ⟨t, ht, hle⟩ := h
  exact ⟨t, ht, le_trans hle hexp⟩

/-- The job can still be recovered from the lapsed lease. -/
def Recoverable (now : Int) (j : Job) (a : JobAttempt) (l : Lease) : Prop :=
  Lapsed now a l ∧ (j.status = .cancelRequested ∨ isExecutingJobStatus j.status = true)

theorem expiryUnderLocks_eq_ok (hA : Authority db scope fence s j a l)
    (h : expiryUnderLocks env fence stats db (FenceState.ofRows scope s j a l env.clock.s₀)
      = .ok (stats', db')) :
    (db' = db ∧ stats' = stats.skip ∧ ¬ Recoverable env.clock.s₀ j a l) ∨
      (stats'.skipped = stats.skipped ∧ Lapsed env.clock.s₀ a l ∧
        ∃ w, Verdict env scope j a l w ∧ w.Applied db db') := by
  simp only [expiryUnderLocks, ite_eq_ok, bind_eq_ok, pure_eq_ok, Prod.mk.injEq, checked_eq_ok] at h
  rcases h with ⟨hopen, rfl, rfl⟩ | ⟨hopen, hrest⟩
  · refine .inl ⟨rfl, rfl, fun hr => ?_⟩
    rcases hopen with hact | hexp
    · exact hact hr.1.active
    · exact absurd hr.1.expired (not_le.mpr hexp)
  · have hlapsed : l.status = .active ∧ l.expiresAt ≤ env.clock.s₀ := by
      rw [not_or, not_not, not_lt] at hopen
      exact hopen
    obtain ⟨hactive, hexp⟩ := hlapsed
    rcases hrest with ⟨hatt, rfl, rfl⟩ | ⟨hatt, hrest⟩
    · refine .inl ⟨rfl, rfl, fun hr => ?_⟩
      have hex : isExecutingAttemptStatus a.status = true := hr.1.attempt
      rw [show (FenceState.ofRows scope s j a l env.clock.s₀).attemptStatus = a.status from rfl,
        hex] at hatt
      cases hatt
    · have hex : isExecutingAttemptStatus a.status = true := by
        simpa [FenceState.ofRows] using hatt
      have hL : Lapsed env.clock.s₀ a l := ⟨hactive, hexp, hex⟩
      rcases hrest with ⟨hj, ⟨r, db₁⟩, hfin, rfl, rfl⟩ | ⟨hj, hrest⟩
      · obtain ⟨-, -, -, -, happ⟩ := finalizeCancellation_eq_ok hA hfin
        exact .inr ⟨rfl, hL, _, .canceled hj, happ⟩
      · rcases hrest with ⟨hnot, rfl, rfl⟩ | ⟨hexec, hrest⟩
        · refine .inl ⟨rfl, rfl, fun hr => ?_⟩
          rcases hr.2 with hc | hexec
          · exact hj hc
          · rw [show (FenceState.ofRows scope s j a l env.clock.s₀).jobStatus = j.status from rfl,
              hexec] at hnot
            cases hnot
        · have hjob : isExecutingJobStatus j.status = true := by
            simpa [FenceState.ofRows] using hexec
          rcases hrest with ⟨ht, ⟨stats₁, db₁⟩, hfin, rfl, rfl⟩ |
            ⟨ht, d, hd, ⟨r, db₁⟩, hfin, hrest⟩
          · obtain ⟨hskip, d, hd, happ⟩ := finalizeTimeout_eq_ok hA hfin
            rw [if_pos ⟨hactive, not_lt.mpr hexp⟩] at happ
            exact .inr ⟨hskip, hL, _,
              .timedOut d hjob (timedOutBeforeLapse_ofRows.mp ht).1 hd, happ⟩
          · have hnot : ¬ OutlivedDeadline a l := fun ho =>
              ht (timedOutBeforeLapse_ofRows.mpr ⟨ho, overdue_of_outlived hexp ho⟩)
            obtain ⟨-, -, -, -, happ⟩ := finalizeAttempt_eq_ok hA hfin
            rcases hrest with ⟨-, rfl, rfl⟩ | ⟨-, rfl, rfl⟩
            · exact .inr ⟨rfl, hL, _, .abandoned d hjob hnot hd, happ⟩
            · exact .inr ⟨rfl, hL, _, .abandoned d hjob hnot hd, happ⟩

theorem expiryUnderLocks_forced (hf : f.cause ≠ .check) (hA : Authority db scope fence s j a l)
    (h : expiryUnderLocks env fence stats db (FenceState.ofRows scope s j a l env.clock.s₀)
      = .error f) :
    Lapsed env.clock.s₀ a l ∧ ∃ w, Verdict env scope j a l w ∧ w.Refused db f := by
  simp only [expiryUnderLocks, ite_eq_error, bind_eq_error, pure_ne_error, checked_eq_ok,
    checked_forced hf, and_false, exists_false, false_or, or_false] at h
  obtain ⟨hopen, hatt, hrest⟩ := h
  have hlapsed : l.status = .active ∧ l.expiresAt ≤ env.clock.s₀ := by
    rw [not_or, not_not, not_lt] at hopen
    exact hopen
  obtain ⟨hactive, hexp⟩ := hlapsed
  have hex : isExecutingAttemptStatus a.status = true := by simpa [FenceState.ofRows] using hatt
  refine ⟨⟨hactive, hexp, hex⟩, ?_⟩
  rcases hrest with ⟨hj, hfin⟩ | ⟨-, hexec, hrest⟩
  · exact ⟨_, .canceled hj, finalizeCancellation_forced hA hj hex hactive hfin⟩
  · have hjob : isExecutingJobStatus j.status = true := by
      simpa [FenceState.ofRows] using hexec
    rcases hrest with ⟨ht, hfin⟩ | ⟨ht, d, hd, hfin⟩
    · obtain ⟨d, hd, href⟩ := finalizeTimeout_forced hf hA hjob hex hactive hfin
      rw [if_pos ⟨hactive, not_lt.mpr hexp⟩] at href
      exact ⟨_, .timedOut d hjob (timedOutBeforeLapse_ofRows.mp ht).1 hd, href⟩
    · have hnot : ¬ OutlivedDeadline a l := fun ho =>
        ht (timedOutBeforeLapse_ofRows.mpr ⟨ho, overdue_of_outlived hexp ho⟩)
      exact ⟨_, .abandoned d hjob hnot hd, finalizeAttempt_forced hf hA hjob hex hactive hfin⟩

theorem reconcileExpiredLease_eq_ok
    (h : reconcileExpiredLease env leaseID stats db = .ok (stats', db')) :
    (db' = db ∧ stats' = stats.skip ∧ ∀ s j a l, l.id = leaseID →
        Authority db l.scope l.fence s j a l → ¬ Recoverable env.clock.s₀ j a l) ∨
      (stats'.skipped = stats.skipped ∧ ∃ s j a l w, Authority db l.scope l.fence s j a l ∧
        l.id = leaseID ∧ Lapsed env.clock.s₀ a l ∧ Verdict env l.scope j a l w ∧
        w.Applied db db') := by
  unfold reconcileExpiredLease at h
  cases hroute : db.leases.rows.find? fun l => l.id == leaseID with
  | none =>
    rw [hroute] at h
    obtain ⟨rfl, rfl⟩ := Prod.mk.inj (pure_eq_ok.mp h)
    refine .inl ⟨rfl, rfl, fun s j a l hid hA => ?_⟩
    exact absurd (beq_iff_eq.mpr hid) (List.find?_eq_none.mp hroute l hA.lease_mem)
  | some m =>
    rw [hroute] at h
    have hm := List.mem_of_find?_eq_some hroute
    have hmid : m.id = leaseID := by simpa using List.find?_some hroute
    rcases underLocks_eq_ok h with ⟨rfl, rfl, hnone⟩ | ⟨s, j, a, l, hA, hact⟩
    · refine .inl ⟨rfl, rfl, fun s j a l hid hA => ?_⟩
      obtain rfl : l = m := db'.lease_eq_of_id hA.lease_mem hm (hid.trans hmid.symm)
      exact absurd hA (hnone s j a l)
    · obtain rfl : l = m := db.lease_eq_of_id hA.lease_mem hm hA.lease_id
      rcases expiryUnderLocks_eq_ok hA hact with ⟨rfl, rfl, hnot⟩ | ⟨hskip, hL, w, hw, happ⟩
      · refine .inl ⟨rfl, rfl, fun s' j' a' l' hid hB => ?_⟩
        obtain ⟨-, rfl, rfl, rfl⟩ := hB.eq_of_lease hA (hid.trans hmid.symm)
        exact hnot
      · exact .inr ⟨hskip, s, j, a, l, w, hA, hmid, hL, hw, happ⟩

theorem reconcileExpiredLease_forced (hf : f.cause ≠ .check)
    (h : reconcileExpiredLease env leaseID stats db = .error f) :
    ∃ s j a l w, Authority db l.scope l.fence s j a l ∧ l.id = leaseID ∧
      Lapsed env.clock.s₀ a l ∧ Verdict env l.scope j a l w ∧ w.Refused db f := by
  unfold reconcileExpiredLease at h
  cases hroute : db.leases.rows.find? fun l => l.id == leaseID with
  | none =>
    rw [hroute] at h
    exact absurd h pure_ne_error.mp
  | some m =>
    rw [hroute] at h
    obtain ⟨s, j, a, l, hA, hact⟩ := underLocks_forced hf h
    obtain rfl : l = m :=
      db.lease_eq_of_id hA.lease_mem (List.mem_of_find?_eq_some hroute) hA.lease_id
    obtain ⟨hL, w, hw, href⟩ := expiryUnderLocks_forced hf hA hact
    have hlid : l.id = leaseID := by simpa using List.find?_some hroute
    exact ⟨s, j, a, l, w, hA, hlid, hL, hw, href⟩

end Spec

end TaskForge
