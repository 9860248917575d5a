/-
What a claim is answered.

`Claim` looks for a job through five filters. Three of them are the caller's business:
the scope and queue, the session's job types, its capabilities. The other two, that the
job is due and that its attempts have not used up its budget, are there for jobs that no
reachable state has among its queued ones: whatever queues a job does so at or after its
`available_at`, with an attempt left (`Waits`). So the answer can be said without them
(`ClaimVerdict`), and the notification that asked is kept or dropped for the right reason.
-/
import TaskForge.Assignments
import TaskForge.Query

open Relational Fallible

namespace TaskForge

/-! ## The order of candidates -/

section Order

/-- The columns of `ORDER BY`. -/
def claimKey (j : Job) : Int × Int × Int × ℕ := (j.priority, j.availableAt, j.createdAt, j.id.toNat)

/-- `priority DESC, available_at, created_at, id` -/
def claimOrder : SortOrder (Int × Int × Int × ℕ) :=
  .lex (.reverse (.asc Int)) (.lex (.asc Int) (.lex (.asc Int) (.asc ℕ)))

theorem claimedBefore_eq (x y : Job) :
    claimedBefore x y = claimOrder.le (claimKey x) (claimKey y) := by
  have hid : (x.id ≤ y.id) ↔ x.id.toNat ≤ y.id.toNat := BitVec.le_def
  rw [Bool.eq_iff_iff]
  simp only [claimedBefore, claimOrder, claimKey, SortOrder.lex, SortOrder.reverse, SortOrder.asc,
    Bool.or_eq_true, Bool.and_eq_true, Bool.not_eq_true', decide_eq_true_eq, decide_eq_false_iff_not,
    beq_iff_eq, hid]
  omega

variable {db : DB} {scope queue : String} {s : WorkerSession} {now : Int} {j : Job}

/-- The selected job comes before every other candidate. -/
theorem selectJob_first (h : selectJob db scope queue s now = some j) {k : Job}
    (hk : k ∈ db.jobs.rows) (heligible : isEligible db scope queue s now k = true) :
    claimedBefore j k = true := by
  have hsorted := orderBy_pairwise claimOrder claimKey
    (db.jobs.rows.filter (isEligible db scope queue s now))
  have hmem : k ∈ orderBy claimOrder claimKey
      (db.jobs.rows.filter (isEligible db scope queue s now)) :=
    (orderBy_perm _ _ _).mem_iff.mpr (List.mem_filter.mpr ⟨hk, heligible⟩)
  have hhead : (orderBy claimOrder claimKey
      (db.jobs.rows.filter (isEligible db scope queue s now))).head? = some j := by
    rw [← h, selectJob, funext₂ claimedBefore_eq]
    rfl
  obtain ⟨rest, hrest⟩ := List.head?_eq_some_iff.mp hhead
  rw [hrest] at hsorted hmem
  rw [claimedBefore_eq]
  rcases List.mem_cons.mp hmem with rfl | hin
  · have htotal := claimOrder.total (claimKey k) (claimKey k)
    rwa [Bool.or_self] at htotal
  · exact (List.pairwise_cons.mp hsorted).1 k hin

end Order

/-! ## The answer -/

/-- A queued job of the scope and queue. -/
def InQueue (scope queue : String) (j : Job) : Prop :=
  j.scope = scope ∧ j.queue = queue ∧ j.status = .queued

/-- A queued job that the session can run. -/
def Suits (scope queue : String) (s : WorkerSession) (j : Job) : Prop :=
  InQueue scope queue j ∧ j.jobType ∈ s.supportedJobTypes ∧
    ∀ c ∈ j.requiredCapabilities, c ∈ s.capabilities

/-- The queue's active leases have reached its limit, or the logical worker's theirs. -/
def Full (db : DB) (req : ClaimRequest) (q : Queue) (s : WorkerSession) : Prop :=
  q.maxConcurrency ≤ activeForQueue db req.queue ∨ s.concurrencyLimit ≤ activeForWorker db req.workerID

/-- What a claim that takes `j` says and does: the answer describes the job and names the
one attempt and the one lease that are added for the session that asked; of the job it
changes the status and `updated_at`, and nothing else changes. -/
structure Grants (env : Env) (scope : String) (req : ClaimRequest) (db : DB) (j : Job)
    (a : Assignment) (db' : DB) : Prop where
  describes : Describes a j
  parties : a.scope = scope ∧ a.queue = req.queue ∧ a.workerID = req.workerID ∧
    a.sessionID = req.sessionID
  number : a.attemptNumber = (attemptsOf db j.id).length + 1
  attempt : ∃ b, db'.attempts.rows = db.attempts.rows ++ [b] ∧ b.id = a.attemptID ∧
    b.jobID = j.id ∧ b.scope = scope ∧ b.queue = req.queue ∧ b.attemptNumber = a.attemptNumber ∧
    b.workerID = req.workerID ∧ b.workerSessionID = req.sessionID ∧ b.status = .leased ∧
    b.startedAt = none ∧ b.timeoutAt = none ∧ b.finishedAt = none
  lease : ∃ l, db'.leases.rows = db.leases.rows ++ [l] ∧ l.id = a.leaseID ∧ l.jobID = j.id ∧
    l.attemptID = a.attemptID ∧ l.scope = scope ∧ l.queue = req.queue ∧
    l.workerID = req.workerID ∧ l.workerSessionID = req.sessionID ∧
    l.claimRequestID = req.claimRequestID ∧ l.status = .active ∧ l.acquiredAt = env.clock.s₁ ∧
    l.expiresAt = a.leaseExpiresAt ∧ l.renewalVersion = 0
  jobs : db'.jobs.rows
    = replaceRow j { j with status := .leased, updatedAt := env.clock.s₁ } db.jobs.rows
  others : db'.queues = db.queues ∧ db'.workers = db.workers ∧ db'.sessions = db.sessions ∧
    db'.outbox.rows = db.outbox.rows ∧ db'.dlqEntries.rows = db.dlqEntries.rows ∧
    db'.results.rows = db.results.rows ∧ db'.idempotency.rows = db.idempotency.rows ∧
    db'.dlqReplays.rows = db.dlqReplays.rows

/-- What a claim of a healthy session, under a new identity, is answered, and the
database it leaves. The five cases exclude one another and leave nothing out. -/
inductive ClaimVerdict (env : Env) (scope : String) (req : ClaimRequest) (db : DB) (q : Queue)
    (s : WorkerSession) : ClaimResult → DB → Prop
  | foreign (group : s.workerGroup ≠ q.workerGroup) :
      ClaimVerdict env scope req db q s ⟨.noEligibleJob, none, false⟩ db
  | exhausted (group : s.workerGroup = q.workerGroup) (full : Full db req q s) :
      ClaimVerdict env scope req db q s ⟨.capacityExhausted, none, false⟩ db
  | claimed (j : Job) (a : Assignment) (db' : DB) (group : s.workerGroup = q.workerGroup)
      (room : ¬ Full db req q s) (mem : j ∈ db.jobs.rows) (suits : Suits scope req.queue s j)
      (first : ∀ k ∈ db.jobs.rows, Suits scope req.queue s k → claimedBefore j k = true)
      (grants : Grants env scope req db j a db') :
      ClaimVerdict env scope req db q s ⟨.claimed, some a, false⟩ db'
  | empty (group : s.workerGroup = q.workerGroup) (room : ¬ Full db req q s)
      (none_ : ∀ j ∈ db.jobs.rows, ¬ InQueue scope req.queue j) :
      ClaimVerdict env scope req db q s ⟨.queueEmpty, none, false⟩ db
  | unsuited (j : Job) (group : s.workerGroup = q.workerGroup) (room : ¬ Full db req q s)
      (mem : j ∈ db.jobs.rows) (queued : InQueue scope req.queue j)
      (none_ : ∀ k ∈ db.jobs.rows, ¬ Suits scope req.queue s k) :
      ClaimVerdict env scope req db q s ⟨.noEligibleJob, none, false⟩ db

section Answer

variable {env : Env} {scope : String} {req : ClaimRequest} {w : World} {q : Queue}
  {s : WorkerSession} {now : Int}

/-- The filters on due time and budget let every queued job through. -/
theorem Sound.queued_unfiltered (h : Sound w) {j : Job} (hj : j ∈ w.db.jobs.rows)
    (hqueued : j.status = .queued) (hclock : w.clock ≤ now) :
    j.availableAt ≤ now ∧ ((attemptsOf w.db j.id).length : Int) < j.maxAttempts := by
  have hwaits := (h.phase hj).waits (.inr (.inl hqueued))
  exact ⟨(hwaits.due hqueued).1.trans hclock, hwaits.room⟩

theorem Sound.isEligible_iff (h : Sound w) (hclock : w.clock ≤ now) {queue : String} {j : Job}
    (hj : j ∈ w.db.jobs.rows) :
    isEligible w.db scope queue s now j = true ↔ Suits scope queue s j := by
  rw [isEligible_eq_true]
  constructor
  · rintro ⟨⟨hscope, hqueue, hqueued, -⟩, hcapabilities, htype, -⟩
    exact ⟨⟨hscope, hqueue, hqueued⟩, htype, hcapabilities⟩
  · rintro ⟨⟨hscope, hqueue, hqueued⟩, htype, hcapabilities⟩
    obtain ⟨hdue, hbudget⟩ := h.queued_unfiltered hj hqueued hclock
    exact ⟨⟨hscope, hqueue, hqueued, hdue⟩, hcapabilities, htype, hbudget⟩

theorem Sound.any_isDue_iff (h : Sound w) (hclock : w.clock ≤ now) {queue : String} :
    w.db.jobs.rows.any (isDue scope queue now) = true ↔
      ∃ j ∈ w.db.jobs.rows, InQueue scope queue j := by
  rw [List.any_eq_true]
  refine exists_congr fun j => and_congr_right fun hj => ?_
  simp only [isDue, Bool.and_eq_true, beq_iff_eq, decide_eq_true_eq, InQueue]
  constructor
  · rintro ⟨⟨⟨hscope, hqueue⟩, hqueued⟩, -⟩
    exact ⟨hscope, hqueue, hqueued⟩
  · rintro ⟨hscope, hqueue, hqueued⟩
    exact ⟨⟨⟨hscope, hqueue⟩, hqueued⟩, (h.queued_unfiltered hj hqueued hclock).1⟩

/-- The writes of a claim grant the job. -/
theorem Sound.grants (h : Sound w) {j : Job} {db' : DB} (hj : j ∈ w.db.jobs.rows)
    (hqueue : j.queue = req.queue) (hqueued : j.status = .queued)
    (happ : (claimWrites env scope req (nextAttemptNumber w.db j.id) j).Applied w.db db') :
    Grants env scope req w.db j (claimedAssignment env scope req (nextAttemptNumber w.db j.id) j)
      db' where
  describes := ⟨rfl, rfl, rfl, rfl, rfl, rfl⟩
  parties := ⟨rfl, hqueue, rfl, rfl⟩
  number := h.nextAttemptNumber_eq hj hqueued
  attempt := ⟨_, happ.attempts, rfl, rfl, rfl, hqueue, rfl, rfl, rfl, rfl, rfl, rfl, rfl⟩
  lease := ⟨_, happ.leases, rfl, rfl, rfl, rfl, hqueue, rfl, rfl, rfl, rfl, rfl, rfl, rfl⟩
  jobs := happ.jobs
  others := ⟨happ.queues, happ.workers, happ.sessions, by simpa [claimWrites] using happ.outbox,
    by simpa [claimWrites] using happ.dlqEntries, by simpa [claimWrites] using happ.results,
    by simpa [claimWrites] using happ.idempotency, by simpa [claimWrites] using happ.dlqReplays⟩

/-- A new claim comes to `claimFresh` with its queue and session. -/
theorem claim_eq_claimFresh {db : DB} (hduration : 0 < env.leaseDuration)
    (hreq : validateClaim req = []) (hs : s ∈ db.sessions.rows) (hid : s.id = req.sessionID)
    (hworker : s.workerID = req.workerID) (hscope : s.scope = scope) (hhealthy : s.status = .healthy)
    (hq : q ∈ db.queues.rows) (hname : q.name = req.queue)
    (hnew : lookupClaim db req.claimRequestID = none) :
    claim env scope req db = claimFresh env scope req q s db := by
  have hpreflight : claimPreflight env scope req db = .ok () :=
    claimPreflight_eq_ok.mpr ⟨hreq, hduration, by simp [hnew]⟩
  have hlocks : claimLocks scope req db = .ok (q, s) :=
    claimLocks_eq_ok.mpr ⟨hq, hname, hs, hid, hworker, hscope, hhealthy⟩
  rw [claim_eq, hpreflight, hlocks, hnew]
  rfl

end Answer

/-- **Claim's answer is exact**: in every reachable state, for a healthy session, an
existing queue and a claim id that has not been used. The filters on due time and budget
hide no queued job from it. -/
theorem claim_exact {w : World} {env : Env} {scope : String} {req : ClaimRequest} {q : Queue}
    {s : WorkerSession} (h : Reachable w) (hclock : w.clock ≤ env.clock.s₀)
    (hfresh : Fresh env w.db) (hduration : 1000 ≤ env.leaseDuration)
    (hreq : validateClaim req = []) (hs : s ∈ w.db.sessions.rows) (hid : s.id = req.sessionID)
    (hworker : s.workerID = req.workerID) (hscope : s.scope = scope) (hhealthy : s.status = .healthy)
    (hq : q ∈ w.db.queues.rows) (hname : q.name = req.queue)
    (hnew : ∀ l ∈ w.db.leases.rows, l.claimRequestID ≠ req.claimRequestID) :
    (∃ r db', claim env scope req w.db = .ok (r, db') ∧ ClaimVerdict env scope req w.db q s r db') ∧
      ∀ j ∈ w.db.jobs.rows, j.status = .queued → j.availableAt ≤ env.clock.s₀ ∧
        ((attemptsOf w.db j.id).length : Int) < j.maxAttempts := by
  have hsound := h.sound
  refine ⟨?_, fun j hj hqueued => hsound.queued_unfiltered hj hqueued hclock⟩
  have hunused := lookupClaim_eq_none hnew
  have hpositive : 0 < env.leaseDuration := by omega
  by_cases hgroup : s.workerGroup = q.workerGroup
  swap
  · refine ⟨_, _, ?_, .foreign hgroup⟩
    rw [claim_eq_claimFresh hpositive hreq hs hid hworker hscope hhealthy hq hname hunused,
      claimFresh, if_pos hgroup]
    rfl
  by_cases hfull : Full w.db req q s
  · refine ⟨_, _, ?_, .exhausted hgroup hfull⟩
    rw [claim_eq_claimFresh hpositive hreq hs hid hworker hscope hhealthy hq hname hunused,
      claimFresh, if_neg (not_not.mpr hgroup)]
    by_cases hqueue : q.maxConcurrency ≤ activeForQueue w.db req.queue
    · rw [if_pos hqueue]
      rfl
    · rw [if_neg hqueue, if_pos (hfull.resolve_left hqueue)]
      rfl
  obtain ⟨hqueue, hlimit⟩ := not_or.mp hfull
  have hselects : ∀ o, selectJob w.db scope req.queue s env.clock.s₀ = o →
      claim env scope req w.db = o.elim
        (if w.db.jobs.rows.any (isDue scope req.queue env.clock.s₁) then noClaim .noEligibleJob w.db
        else noClaim .queueEmpty w.db) (claimJob env scope req w.db) := by
    rintro (_ | j) hselect
    all_goals
      rw [claim_eq_claimFresh hpositive hreq hs hid hworker hscope hhealthy hq hname hunused,
        claimFresh, if_neg (not_not.mpr hgroup), if_neg hqueue, if_neg hlimit]
      simp only [hselect, Option.elim]
  cases hselect : selectJob w.db scope req.queue s env.clock.s₀ with
  | some j =>
    obtain ⟨hj, heligible⟩ := selectJob_eq_some hselect
    obtain ⟨db', hok, happlied⟩ := hsound.claimJob_ok hfresh hduration
      ⟨hpositive, hunused, hs, hid, hworker, hscope, hhealthy,
        ⟨q, hq, hname, hgroup, not_le.mp hqueue⟩, not_le.mp hlimit, hj, heligible⟩
    have hsuits := (hsound.isEligible_iff hclock hj).mp heligible
    refine ⟨_, db', ?_, .claimed j _ db' hgroup hfull hj hsuits (fun k hk hsuits => ?_)
      (hsound.grants hj hsuits.1.2.1 hsuits.1.2.2 happlied)⟩
    · rw [hselects _ hselect]
      exact hok
    · exact selectJob_first hselect hk ((hsound.isEligible_iff hclock hk).mpr hsuits)
  | none =>
    have hselects := hselects none hselect
    rw [Option.elim] at hselects
    -- No job suits, or it would have been selected.
    have hnone : ∀ k ∈ w.db.jobs.rows, ¬ Suits scope req.queue s k := by
      intro k hk hsuits
      obtain ⟨j, hj⟩ := selectJob_isSome hk ((hsound.isEligible_iff hclock hk).mpr hsuits)
      rw [hselect] at hj
      cases hj
    have hlater : w.clock ≤ env.clock.s₁ := hclock.trans env.clock.le₁
    by_cases hqueued : ∃ j ∈ w.db.jobs.rows, InQueue scope req.queue j
    · obtain ⟨j, hj, hin⟩ := hqueued
      refine ⟨_, _, ?_, .unsuited j hgroup hfull hj hin hnone⟩
      rw [hselects, if_pos ((hsound.any_isDue_iff hlater).mpr ⟨j, hj, hin⟩)]
      rfl
    · refine ⟨_, _, ?_, .empty hgroup hfull fun j hj hin => hqueued ⟨j, hj, hin⟩⟩
      rw [hselects, if_neg fun hany => hqueued ((hsound.any_isDue_iff hlater).mp hany)]
      rfl

/-- A registered worker claims the one job that has been submitted. -/
theorem claim_exact_sample :
    ∃ q s r db', claim (envAt 3 4 5) "tenant" ⟨1, 7, 6, "default"⟩
        (quiet.exec (sampleStart.take 2)).2.db = .ok (r, db') ∧
      ClaimVerdict (envAt 3 4 5) "tenant" ⟨1, 7, 6, "default"⟩ (quiet.exec (sampleStart.take 2)).2.db
        q s r db' := by
  obtain ⟨⟨s, hs, hid, hworker, hscope, hhealthy⟩, ⟨q, hq, hname⟩, hclock, hfresh, hnew⟩ :
      (∃ s ∈ (quiet.exec (sampleStart.take 2)).2.db.sessions.rows,
        s.id = 7 ∧ s.workerID = 1 ∧ s.scope = "tenant" ∧ s.status = .healthy) ∧
      (∃ q ∈ (quiet.exec (sampleStart.take 2)).2.db.queues.rows, q.name = "default") ∧
      (quiet.exec (sampleStart.take 2)).2.clock ≤ 3 ∧
      Fresh (envAt 3 4 5) (quiet.exec (sampleStart.take 2)).2.db ∧
      ∀ l ∈ (quiet.exec (sampleStart.take 2)).2.db.leases.rows, l.claimRequestID ≠ 6 := by
    decide +kernel
  exact ⟨q, s, (@claim_exact _ (envAt 3 4 5) "tenant" ⟨1, 7, 6, "default"⟩ q s
    (quiet_reachable (by decide)) hclock hfresh (by decide) (by decide +kernel) hs hid hworker
    hscope hhealthy hq hname hnew).1⟩

end TaskForge
