/-
What passes in a row achieve, when nothing else happens.

Promotion and lease expiry drain. A row that either scan selects is a row its
transaction acts on: in every state the service reaches, a due job is promoted and a
lapsed lease is recovered, without a check, a row count or a constraint in the way.
So as many passes as would cover the candidates leave none (`scans_drain`).

Timeouts and re-notification do not. Their scans also select rows that their
transactions skip (a canceled run, a lapsed lease; a job whose event is still
pending), and a skipped row keeps its place at the head of the next scan. The passes
reach every row they ought to exactly when the skipped ones leave room for it
(`scans_reach_iff`).
-/
import TaskForge.Passes
import TaskForge.VerdictTiming

open Relational Fallible Sweeping

namespace TaskForge

/-- A state the service reaches. -/
def Serviced (w : World) : Prop := ∃ w₀ trace, Initial w₀ ∧ Service w₀ trace w

theorem Serviced.sound {w : World} (h : Serviced w) : Sound w := by
  obtain ⟨w₀, trace, hinit, hrun⟩ := h
  exact hrun.invariant (fun hs hstep => hstep.sound hs) hinit.sound

theorem Serviced.standing {w : World} (h : Serviced w) {t : Int} (ht : w.clock ≤ t) :
    Standing t w.db := ⟨w.clock, ht, h.sound⟩

section Specs

variable {t : Int}
variable {w : World} {l : Lease} {env other : Env} {db db' : DB} {stats stats' : ReconcileStats}
  {id : UUID} {scope : String} {o : AttemptOutcome} {d : Decision} {now : Int} {j : Job}
  {a : JobAttempt} {s : WorkerSession}

/-! ## Promotion -/

/-- `PromoteDueJobs`, as a bounded scan: every candidate qualifies. -/
def promoteSpec (t : Int) : ScanSpec SchedulerStats where
  act := promoteCandidate
  due := dueJobs t
  qualifies _ _ := true
  zero := ⟨0, 0, 0⟩
  done := SchedulerStats.promotedJobs
  skipped := SchedulerStats.skipped
  Moved db db' := Advanced (isPromotable t) (fun j j' => j' = promotedJob t j) db.jobs.rows
    db'.jobs.rows

theorem isPromotable_promotedJob (now : Int) (j : Job) :
    isPromotable t (promotedJob now j) = false := rfl

theorem promoteSpec_works (t : Int) : (promoteSpec t).Works t where
  nodup db := nodup_scan db.jobs.nodup fun _ ha _ hb => db.job_eq_of_id ha hb
  done_zero := rfl
  skipped_zero := rfl
  refl db := .refl _ _ _
  trans h h' := h.trans h' fun j j' he => ⟨he ▸ isPromotable_promotedJob t j, he⟩
  treats {env db id} stats hstand h₀ h₂ hdur hfresh hid := by
    obtain ⟨j, hj, hprom, rfl⟩ := mem_scan.mp hid
    obtain ⟨c, hc, hsound⟩ := hstand
    have hcond := hprom
    simp only [isPromotable, Bool.and_eq_true, Bool.or_eq_true, beq_iff_eq, decide_eq_true_eq]
      at hcond
    have hcommits : ∃ db', promoteDueJob env j.id db = .ok (true, db') ∧ _ :=
      hsound.promotes hj hcond.1 (h₀ ▸ hc) (h₀ ▸ hcond.2) ⟨hfresh, hdur, rfl⟩
    obtain ⟨db', hok, -⟩ := hcommits
    refine ⟨{ stats with promotedJobs := stats.promotedJobs + 1 }, db', ?_, ?_⟩
    · show promoteCandidate env j.id stats db = _
      rw [promoteCandidate, hok]
      rfl
    obtain ⟨hfalse, -⟩ | ⟨-, k, hk, hkid, -, happ⟩ := promoteDueJob_eq_ok hok
    · cases hfalse
    obtain rfl : k = j := db.job_eq_of_id hk hj hkid
    have hjobs : db'.jobs.rows = replaceRow k (promotedJob t k) db.jobs.rows := by
      rw [happ.jobs, ← h₀]
      rfl
    refine ⟨Standing.run ⟨c, hc, hsound⟩ (.promoteDueJob k.id) h₀ h₂
      (answering_eq_ok.mpr ⟨true, hok, rfl⟩), ?_, ?_, fun _ _ => rfl, rfl, rfl, ?_⟩
    · intro other hapart hother
      exact hother.applied happ hapart rfl trivial trivial (by simp [promoteWrites, workAvailableEvent])
        (by simp [promoteWrites]) rfl
    · show dueJobs t db' = _
      rw [dueJobs, hjobs, scan_replaceRow hj (isPromotable_promotedJob t k)
        fun _ ha _ hb => db.job_eq_of_id ha hb]
      simp [promoteSpec, dueJobs, bne]
    · show Advanced _ _ _ _
      rw [hjobs]
      exact .replaceRow hprom rfl

/-! ## Expired leases -/

/-- An active lease is the lease of its job's open run. -/
theorem Sound.run_of_active (h : Sound w) (hl : l ∈ w.db.leases.rows)
    (hactive : l.status = .active) :
    ∃ j ∈ w.db.jobs.rows, ∃ past pastLeases a,
      Executing w.clock j (w.db.caseFile j.id) past pastLeases a l := by
  obtain ⟨j, hj, hmem⟩ := h.job_of_lease hl
  refine ⟨j, hj, ?_⟩
  cases h.phase hj with
  | waiting status waits => exact absurd hactive (waits.history.lease_closed hmem)
  | ended history => exact absurd hactive (history.lease_closed hmem)
  | executing past pastLeases a m run =>
    obtain rfl : l = m := run.active_lease hl (mem_caseFile_leases.mp hmem).2 hactive
    exact ⟨past, pastLeases, a, run⟩

/-- `ReconcileExpiredLeases`, as a bounded scan: every candidate qualifies. -/
def expirySpec (t : Int) : ScanSpec ReconcileStats where
  act := reconcileExpiredLease
  due := lapsedLeases t
  qualifies _ _ := true
  zero := .zero
  done := ReconcileStats.expiredLeases
  skipped := ReconcileStats.skipped
  Moved db db' := Advanced (isLapsed t) (fun l l' => l' = closedLease .expired t l) db.leases.rows
    db'.leases.rows

theorem finalizeTimeout_counts {state : FenceState} {fence : Fence}
    (h : finalizeTimeout env db state fence stats = .ok (stats', db')) :
    stats'.expiredLeases = stats.expiredLeases ∧
      stats'.timedOutAttempts = stats.timedOutAttempts ∧ stats'.skipped = stats.skipped := by
  simp only [finalizeTimeout, bind_eq_ok, ite_eq_ok, pure_eq_ok, Prod.mk.injEq] at h
  obtain ⟨-, -, -, -, ⟨-, rfl, -⟩ | ⟨-, rfl, -⟩⟩ := h
  · exact ⟨rfl, rfl, rfl⟩
  · exact ⟨rfl, rfl, rfl⟩

/-- A candidate of the expired-lease scan is skipped or counted, once. -/
theorem reconcileExpiredLease_counts
    (h : reconcileExpiredLease env id stats db = .ok (stats', db')) :
    stats'.expiredLeases + stats'.skipped = stats.expiredLeases + stats.skipped + 1 := by
  have hskip : stats.skip.expiredLeases + stats.skip.skipped
      = stats.expiredLeases + stats.skipped + 1 := (Nat.add_assoc _ _ _).symm
  unfold reconcileExpiredLease at h
  split at h
  · obtain ⟨rfl, rfl⟩ := Prod.mk.inj (pure_eq_ok.mp h)
    exact hskip
  rcases underLocks_eq_ok h with ⟨-, rfl, -⟩ | ⟨s, j, a, l, hA, hact⟩
  · exact hskip
  simp only [expiryUnderLocks, ite_eq_ok, bind_eq_ok, pure_eq_ok, Prod.mk.injEq] at hact
  rcases hact with ⟨-, rfl, -⟩ | ⟨-, ⟨-, rfl, -⟩ | ⟨-, hact⟩⟩
  · exact hskip
  · exact hskip
  rcases hact with ⟨-, -, -, rfl, -⟩ | ⟨-, ⟨-, rfl, -⟩ | ⟨-, hact⟩⟩
  · exact Nat.add_right_comm _ _ _
  · exact hskip
  rcases hact with ⟨-, ⟨stats₁, db₁⟩, hfin, rfl, -⟩ | ⟨-, -, -, -, -, ⟨-, rfl, -⟩ | ⟨-, rfl, -⟩⟩
  · obtain ⟨hexpired, -, hskipped⟩ := finalizeTimeout_counts hfin
    show stats₁.expiredLeases + 1 + stats₁.skipped = _
    omega
  · exact Nat.add_right_comm _ _ _
  · exact Nat.add_right_comm _ _ _

theorem Fresh.finalized (h : Fresh other db)
    (happ : (finalizeWrites env scope o d now j a l).Applied db db') (hapart : env.Apart other) :
    Fresh other db' := by
  refine h.applied happ hapart (finalizedJob_id d now j) rfl rfl ?_ ?_ rfl
  · intro e he
    simp only [finalizeWrites] at he
    split_ifs at he
    · rw [List.mem_singleton.mp he]
      rfl
    · cases he
  · intro e he
    simp only [finalizeWrites] at he
    split_ifs at he
    · cases he
    · obtain ⟨reason, -, rfl⟩ := Option.map_eq_some_iff.mp (Option.mem_toList.mp he)
      rfl

theorem Verdict.fresh {writes : Writes} (hv : Verdict env scope j a l writes) (h : Fresh other db)
    (happ : writes.Applied db db') (hapart : env.Apart other) : Fresh other db' := by
  cases hv with
  | canceled job =>
    exact h.applied happ hapart rfl rfl rfl (by rintro _ ⟨⟩) (by rintro _ ⟨⟩) rfl
  | timedOut | abandoned => exact h.finalized happ hapart

theorem isLapsed_closedLease (now : Int) (l : Lease) :
    isLapsed t (closedLease .expired now l) = false := rfl

theorem expirySpec_works (t : Int) : (expirySpec t).Works t where
  nodup db := nodup_scan db.leases.nodup fun _ ha _ hb => db.lease_eq_of_id ha hb
  done_zero := rfl
  skipped_zero := rfl
  refl db := .refl _ _ _
  trans h h' := h.trans h' fun l l' he => ⟨he ▸ isLapsed_closedLease t l, he⟩
  treats {env db id} stats hstand h₀ h₂ hdur hfresh hid := by
    obtain ⟨l, hl, hlapsed, rfl⟩ := mem_scan.mp hid
    obtain ⟨c, hc, hsound⟩ := hstand
    have hcond := hlapsed
    simp only [isLapsed, Bool.and_eq_true, beq_iff_eq, decide_eq_true_eq] at hcond
    obtain ⟨j, hj, past, pastLeases, a, run⟩ := hsound.run_of_active hl hcond.1
    have hcommits : ∃ stats' db', reconcileExpiredLease env l.id stats db = .ok (stats', db') ∧ _ :=
      hsound.expiry_recovers hj run.status.executing run (h₀ ▸ hc) (h₀ ▸ hcond.2)
        ⟨hfresh, hdur, rfl⟩
    obtain ⟨stats', db', hok, hrec⟩ := hcommits
    refine ⟨stats', db', hok, ?_⟩
    obtain ⟨-, hskip, -⟩ | ⟨hskipped, s, j', a', m, writes, hA, hmid, -, hverdict, happ⟩ :=
      reconcileExpiredLease_eq_ok hok
    · have hsame := hrec.not_skipped
      rw [hskip] at hsame
      exact absurd hsame (Nat.succ_ne_self _)
    obtain rfl : m = l := db.lease_eq_of_id hA.lease_mem hl hmid
    obtain ⟨-, -, -, -, hlease⟩ := hverdict.recovers
    have hleases : db'.leases.rows = replaceRow m (closedLease .expired t m) db.leases.rows := by
      rw [happ.leases, hlease, h₀]
      rfl
    have hcounts := reconcileExpiredLease_counts hok
    refine ⟨Standing.run ⟨c, hc, hsound⟩ (.reconcileExpiredLease m.id stats) h₀ h₂
      (answering_eq_ok.mpr ⟨stats', hok, rfl⟩), ?_, ?_, fun _ _ => rfl, ?_, hskipped, ?_⟩
    · exact fun other hapart hother => hverdict.fresh hother happ hapart
    · show lapsedLeases t db' = _
      rw [lapsedLeases, hleases, scan_replaceRow hl (isLapsed_closedLease t m)
        fun _ ha _ hb => db.lease_eq_of_id ha hb]
      simp [expirySpec, lapsedLeases, bne]
    · show stats'.expiredLeases = stats.expiredLeases + 1
      omega
    · show Advanced _ _ _ _
      rw [hleases]
      exact .replaceRow hlapsed rfl

/-! ## Timeouts -/

/-- A running attempt whose deadline has come, of a running job, under a usable lease. -/
def isDueRun (t : Int) (db : DB) (a : JobAttempt) : Bool :=
  isOverdueRun t a && ((db.jobs.rows.any fun j => j.id == a.jobID && j.status == .running) &&
    db.leases.rows.any fun l =>
      l.attemptID == a.id && (l.status == .active && decide (t < l.expiresAt)))

/-- `ReconcileDueTimeouts`, as a bounded scan. -/
def timeoutSpec (t : Int) : ScanSpec ReconcileStats where
  act := reconcileDueTimeout
  due := overdueRuns t
  qualifies db id := db.attempts.rows.any fun a => a.id == id && isDueRun t db a
  zero := .zero
  done := ReconcileStats.timedOutAttempts
  skipped := ReconcileStats.skipped
  Moved db db' := Advanced (isOverdueRun t) (fun a a' => a'.id = a.id ∧ a'.status = .timedOut)
    db.attempts.rows db'.attempts.rows

theorem timeoutSpec_qualifies (ha : a ∈ db.attempts.rows) :
    (timeoutSpec t).qualifies db a.id = isDueRun t db a := by
  refine any_eq_of_unique ha (beq_self_eq_true _) fun b hb hid => ?_
  exact db.attempt_eq_of_id hb ha (beq_iff_eq.mp hid)

/-- On stored rows, the verdict is the one the transaction reaches under its locks. -/
theorem isDueRun_iff (hA : Authority db l.scope l.fence s j a l) :
    isDueRun t db a = true ↔ TimeoutDue t j a l := by
  have hjob : (db.jobs.rows.any fun k => k.id == a.jobID && k.status == .running)
      = (j.status == .running) := by
    have hid : j.id = a.jobID := hA.job_id.trans hA.attempt_job.symm
    refine any_eq_of_unique (p := fun k => k.id == a.jobID) (q := fun k => k.status == .running)
      hA.job_mem (beq_iff_eq.mpr hid) fun k hk hkid => ?_
    exact db.job_eq_of_id hk hA.job_mem ((beq_iff_eq.mp hkid).trans hid.symm)
  have hlease : (db.leases.rows.any fun m =>
        m.attemptID == a.id && (m.status == .active && decide (t < m.expiresAt)))
      = (l.status == .active && decide (t < l.expiresAt)) := by
    have hid : l.attemptID = a.id := hA.lease_attempt.trans hA.attempt_id.symm
    refine any_eq_of_unique (p := fun m => m.attemptID == a.id)
      (q := fun m => m.status == .active && decide (t < m.expiresAt)) hA.lease_mem
      (beq_iff_eq.mpr hid) fun m hm hmid => ?_
    exact db.lease_eq_of_attempt hm hA.lease_mem ((beq_iff_eq.mp hmid).trans hid.symm)
  unfold isDueRun
  rw [hjob, hlease]
  simp only [isOverdueRun, Bool.and_eq_true, beq_iff_eq, decide_eq_true_eq, Option.any_eq_true]
  constructor
  · rintro ⟨⟨hrun, u, hu, hle⟩, hj, hactive, hexp⟩
    exact ⟨hactive, hexp, ⟨u, hu, hle⟩, hj, hrun⟩
  · rintro ⟨hactive, hexp, ⟨u, hu, hle⟩, hj, hrun⟩
    exact ⟨⟨hrun, u, hu, hle⟩, hj, hactive, hexp⟩

/-- A candidate of the timeout scan is skipped or counted, once. -/
theorem reconcileDueTimeout_counts (h : reconcileDueTimeout env id stats db = .ok (stats', db')) :
    stats'.timedOutAttempts + stats'.skipped = stats.timedOutAttempts + stats.skipped + 1 := by
  have hskip : stats.skip.timedOutAttempts + stats.skip.skipped
      = stats.timedOutAttempts + stats.skipped + 1 := (Nat.add_assoc _ _ _).symm
  unfold reconcileDueTimeout at h
  split at h
  · obtain ⟨rfl, rfl⟩ := Prod.mk.inj (pure_eq_ok.mp h)
    exact hskip
  rcases underLocks_eq_ok h with ⟨-, rfl, -⟩ | ⟨s, j, a, l, hA, hact⟩
  · exact hskip
  simp only [timeoutUnderLocks, ite_eq_ok, bind_eq_ok, pure_eq_ok, Prod.mk.injEq] at hact
  rcases hact with ⟨-, rfl, -⟩ | ⟨-, ⟨stats₁, db₁⟩, hfin, rfl, -⟩
  · exact hskip
  · obtain ⟨-, htimed, hskipped⟩ := finalizeTimeout_counts hfin
    show stats₁.timedOutAttempts + 1 + stats₁.skipped = _
    omega

/-- The verdict on another attempt does not change. -/
theorem isDueRun_applied {c : Int} (hsound : Sound ⟨db, c⟩) {b : JobAttempt}
    (hA : Authority db l.scope l.fence s j a l) (hrun : a.status = .running)
    (hb : b ∈ db.attempts.rows) (hbrun : isOverdueRun t b = true) (hne : b ≠ a)
    (hclosed : o.leaseStatus ≠ .active)
    (happ : (finalizeWrites env l.scope o d now j a l).Applied db db') :
    isDueRun t db' b = isDueRun t db b := by
  have hbstatus : b.status = .running := by
    simp only [isOverdueRun, Bool.and_eq_true, beq_iff_eq] at hbrun
    exact hbrun.1
  have hjob : j.id ≠ b.jobID := by
    intro he
    have hsame : b.jobID = a.jobID := by rw [← he, hA.job_id, hA.attempt_job]
    exact hne (hsound.executing_unique hA.attempt_mem hb hsame (by rw [hrun]; rfl)
      (by rw [hbstatus]; rfl))
  have hlease : l.attemptID ≠ b.id := by
    intro he
    refine hne (db.attempt_eq_of_id hb hA.attempt_mem ?_)
    rw [← he, hA.lease_attempt, hA.attempt_id]
  have hjobs : (db'.jobs.rows.any fun k => k.id == b.jobID && k.status == .running)
      = db.jobs.rows.any fun k => k.id == b.jobID && k.status == .running := by
    rw [happ.jobs]
    exact any_replaceRow_of_neg (by simp [hjob]) (by simp [finalizedJob_id, hjob]) _
  have hleases : (db'.leases.rows.any fun m =>
        m.attemptID == b.id && (m.status == .active && decide (t < m.expiresAt)))
      = db.leases.rows.any fun m =>
        m.attemptID == b.id && (m.status == .active && decide (t < m.expiresAt)) := by
    rw [happ.leases]
    exact any_replaceRow_of_neg (by simp [hlease]) (by simp [closedLease, hclosed]) _
  unfold isDueRun
  rw [hjobs, hleases]

theorem timeoutSpec_works (t : Int) : (timeoutSpec t).Works t where
  nodup db := nodup_scan db.attempts.nodup fun _ ha _ hb => db.attempt_eq_of_id ha hb
  done_zero := rfl
  skipped_zero := rfl
  refl db := .refl _ _ _
  trans h h' := by
    refine h.trans h' fun a a' he => ⟨?_, he⟩
    simp [isOverdueRun, he.2]
  treats {env db id} stats hstand h₀ h₂ hdur hfresh hid := by
    obtain ⟨a, ha, hover, rfl⟩ := mem_scan.mp hid
    obtain ⟨c, hc, hsound⟩ := hstand
    have hrunning : a.status = .running := by
      have hcond := hover
      simp only [isOverdueRun, Bool.and_eq_true, beq_iff_eq] at hcond
      exact hcond.1
    obtain ⟨j, hj, hjid⟩ := hsound.job_of_attempt ha
    obtain ⟨past, pastLeases, l, run⟩ := (hsound.phase hj).run_of_executing
      (mem_caseFile_attempts.mpr ⟨ha, hjid.symm⟩) (by rw [hrunning]; rfl)
    obtain ⟨s, hA⟩ := hsound.authority hj run
    have hcommits : ∃ ans db', (Call.reconcileDueTimeout a.id stats).run env db = .ok (ans, db') :=
      Call.commits hsound (h₀ ▸ hc) ⟨hfresh, hdur, rfl⟩ rfl rfl fun f hf =>
        reconcileDueTimeout_cause hA (answering_eq_error.mp hf)
    obtain ⟨ans, db', hrun⟩ := hcommits
    have hstand' := Standing.run ⟨c, hc, hsound⟩ (.reconcileDueTimeout a.id stats) h₀ h₂ hrun
    obtain ⟨stats', hok, -⟩ := answering_eq_ok.mp hrun
    refine ⟨stats', db', hok, ?_⟩
    have hcounts := reconcileDueTimeout_counts hok
    have hverdict : (timeoutSpec t).qualifies db a.id = true ↔ TimeoutDue t j a l := by
      rw [timeoutSpec_qualifies ha, isDueRun_iff hA]
    rcases reconcileDueTimeout_eq_ok hok with ⟨rfl, rfl, hnot⟩ |
      ⟨hskipped, s', j', a', l', d, hB, haid, hdue, -, happ⟩
    · have hq : (timeoutSpec t).qualifies db' a.id = false := by
        rw [Bool.eq_false_iff, Ne, hverdict, ← h₀]
        exact hnot s j a l rfl hA
      refine ⟨hstand', fun _ _ h => h, ?_, fun _ _ => rfl, ?_, ?_, .refl _ _ _⟩
      · simp [hq]
      · rw [hq]
        rfl
      · rw [hq]
        rfl
    · obtain ⟨-, rfl, rfl, rfl⟩ := hB.eq_of_attempt hA haid
      have hq : (timeoutSpec t).qualifies db a'.id = true := hverdict.mpr (h₀ ▸ hdue)
      have hattempts : db'.attempts.rows
          = replaceRow a' (finalizedAttempt (timeoutOutcome .released) d t a') db.attempts.rows := by
        rw [happ.attempts, ← h₀]
        rfl
      have hnew : isOverdueRun t (finalizedAttempt (timeoutOutcome .released) d t a') = false := rfl
      refine ⟨hstand', fun other hapart hother => hother.finalized happ hapart, ?_, ?_, ?_, ?_, ?_⟩
      · show overdueRuns t db' = _
        rw [overdueRuns, hattempts, scan_replaceRow ha hnew
          fun _ ha _ hb => db.attempt_eq_of_id ha hb, hq]
        simp [timeoutSpec, overdueRuns, bne]
      · intro k hk
        obtain ⟨b, hb, hbover, rfl⟩ := mem_scan.mp hk
        have hbmem := hb
        rw [hattempts] at hbmem
        rcases mem_replaceRow.mp hbmem with ⟨hbmem, hne⟩ | ⟨rfl, -⟩
        · rw [timeoutSpec_qualifies hb, timeoutSpec_qualifies hbmem]
          exact isDueRun_applied hsound hA hrunning hbmem hbover hne (by rintro ⟨⟩) happ
        · rw [hnew] at hbover
          cases hbover
      · rw [hq]
        show stats'.timedOutAttempts = stats.timedOutAttempts + 1
        omega
      · rw [hq]
        exact hskipped
      · show Advanced _ _ _ _
        rw [hattempts]
        exact .replaceRow hover ⟨rfl, rfl⟩

/-! ## Re-notification -/

variable {after interval : Int}

/-- A queued job past its interval, with no pending event of its current generation. -/
def isUnadvertised (interval t : Int) (db : DB) (j : Job) : Bool :=
  isQuietJob interval t j && !hasPendingWorkAvailable db j.id j.notificationGeneration

/-- The job was re-notified at `t`: it is stamped, and an event of its current
generation is pending. -/
def Renotified (t : Int) (db' : DB) (j j' : Job) : Prop :=
  j' = renotifiedJob t j ∧ hasPendingWorkAvailable db' j.id j.notificationGeneration = true

/-- `RenotifyStrandedQueued`, as a bounded scan. -/
def renotifySpec (after interval t : Int) : ScanSpec SchedulerStats where
  act := renotifyCandidate after
  due := quietJobs interval t
  qualifies db id := db.jobs.rows.any fun j => j.id == id && isUnadvertised interval t db j
  zero := ⟨0, 0, 0⟩
  done := SchedulerStats.renotified
  skipped := SchedulerStats.skipped
  Moved db db' := (∀ e ∈ db.outbox.rows, e ∈ db'.outbox.rows) ∧
    Advanced (isQuietJob interval t) (Renotified t db') db.jobs.rows db'.jobs.rows

theorem renotifySpec_qualifies (hj : j ∈ db.jobs.rows) :
    (renotifySpec after interval t).qualifies db j.id = isUnadvertised interval t db j := by
  refine any_eq_of_unique hj (beq_self_eq_true _) fun k hk hid => ?_
  exact db.job_eq_of_id hk hj (beq_iff_eq.mp hid)

theorem isQuietJob_iff :
    isQuietJob interval t j = true ↔
      j.status = .queued ∧ ∃ u, j.lastNotificationAt = some u ∧ u < t - interval := by
  simp only [isQuietJob, Bool.and_eq_true, beq_iff_eq, Option.any_eq_true, decide_eq_true_eq]

/-- Among the rows the scan selects, the transaction acts on those without a pending
event: the interval it computes is not longer than the scan's. -/
theorem isStranded_eq (h : Sound w) (hint : after / 1000 ≤ interval) (hj : j ∈ w.db.jobs.rows)
    (hquiet : isQuietJob interval t j = true) :
    isStranded w.db after t j = isUnadvertised interval t w.db j := by
  obtain ⟨hqueued, u, hu, hlt⟩ := isQuietJob_iff.mp hquiet
  have hgen : 1 ≤ j.notificationGeneration := by
    cases h.phase hj with
    | waiting status waits => exact (waits.due hqueued).2
    | executing past pastLeases a l run =>
      rcases run.status.executing with hs | hs <;> rw [hqueued] at hs <;> cases hs
    | ended history final =>
      have hterm := final.terminal
      rw [hqueued] at hterm
      cases hterm
  have htime : goTime u < goTime t - after := by
    unfold goTime
    omega
  unfold isStranded isUnadvertised
  rw [hquiet]
  simp [hqueued, hgen, hu, htime]

theorem isQuietJob_renotifiedJob (hint : 0 ≤ interval) (j : Job) :
    isQuietJob interval t (renotifiedJob t j) = false := by
  simp only [isQuietJob, renotifiedJob, Option.any_some, Bool.and_eq_false_iff,
    decide_eq_false_iff_not]
  right
  omega

theorem hasPendingWorkAvailable_mono {g : ℕ} (hsub : ∀ e ∈ db.outbox.rows, e ∈ db'.outbox.rows)
    (h : hasPendingWorkAvailable db id g = true) : hasPendingWorkAvailable db' id g = true := by
  obtain ⟨e, he, hp⟩ := List.any_eq_true.mp h
  exact List.any_eq_true.mpr ⟨e, hsub e he, hp⟩

/-- The verdict on another job does not change. -/
theorem isUnadvertised_applied {k : Job} (hne : k.id ≠ j.id)
    (happ : (renotifyWrites env j).Applied db db') :
    isUnadvertised interval t db' k = isUnadvertised interval t db k := by
  have hpending : hasPendingWorkAvailable db' k.id k.notificationGeneration
      = hasPendingWorkAvailable db k.id k.notificationGeneration := by
    unfold hasPendingWorkAvailable
    rw [happ.outbox, List.any_append]
    simp [renotifyWrites, workAvailableEvent, hne.symm]
  unfold isUnadvertised
  rw [hpending]

theorem renotifySpec_works (t : Int) (hint : after / 1000 ≤ interval) (hafter : 0 < after) :
    (renotifySpec after interval t).Works t where
  nodup db := nodup_scan db.jobs.nodup fun _ ha _ hb => db.job_eq_of_id ha hb
  done_zero := rfl
  skipped_zero := rfl
  refl db := ⟨fun _ he => he, .refl _ _ _⟩
  trans {db₁ db₂ db₃} h h' := by
    refine ⟨fun e he => h'.1 e (h.1 e he), h.2.trans h'.2 fun j j' he => ?_⟩
    refine ⟨?_, he.1, hasPendingWorkAvailable_mono h'.1 he.2⟩
    rw [he.1]
    exact isQuietJob_renotifiedJob (by omega) j
  treats {env db id} stats hstand h₀ h₂ hdur hfresh hid := by
    obtain ⟨j, hj, hquiet, rfl⟩ := mem_scan.mp hid
    obtain ⟨c, hc, hsound⟩ := hstand
    have hcommits : ∃ ans db', (Call.renotifyStrandedJob j.id after).run env db = .ok (ans, db') :=
      Call.commits hsound (h₀ ▸ hc) ⟨hfresh, hdur, rfl⟩ rfl rfl fun f hf =>
        renotifyStrandedJob_cause hj (hsound.queues j hj) (answering_eq_error.mp hf)
    obtain ⟨ans, db', hrun⟩ := hcommits
    have hstand' := Standing.run ⟨c, hc, hsound⟩ (.renotifyStrandedJob j.id after) h₀ h₂ hrun
    obtain ⟨r, hok, -⟩ := answering_eq_ok.mp hrun
    have hverdict : (renotifySpec after interval t).qualifies db j.id = isStranded db after t j := by
      rw [renotifySpec_qualifies hj, ← isStranded_eq hsound hint hj hquiet]
    rcases renotifyStrandedJob_eq_ok hok with ⟨rfl, rfl, hnot⟩ | ⟨rfl, k, hk, hkid, hstr, happ⟩
    · have hq : (renotifySpec after interval t).qualifies db' j.id = false := by
        rw [hverdict, ← h₀]
        exact hnot j hj rfl
      refine ⟨{ stats with skipped := stats.skipped + 1 }, db', ?_, hstand', fun _ _ h => h, ?_,
        fun _ _ => rfl, ?_, ?_, fun _ he => he, .refl _ _ _⟩
      · show renotifyCandidate after env j.id stats db' = _
        rw [renotifyCandidate, hok]
        rfl
      · simp [hq]
      · rw [hq]
        rfl
      · rw [hq]
        rfl
    · obtain rfl : k = j := db.job_eq_of_id hk hj hkid
      have hq : (renotifySpec after interval t).qualifies db k.id = true := by
        rw [hverdict, ← h₀]
        exact hstr
      have hjobs : db'.jobs.rows = replaceRow k (renotifiedJob t k) db.jobs.rows := by
        rw [happ.jobs, ← h₀]
        rfl
      have hnew : isQuietJob interval t (renotifiedJob t k) = false :=
        isQuietJob_renotifiedJob (by omega) k
      refine ⟨{ stats with renotified := stats.renotified + 1 }, db', ?_, hstand', ?_, ?_, ?_, ?_,
        ?_, ?_, ?_⟩
      · show renotifyCandidate after env k.id stats db = _
        rw [renotifyCandidate, hok]
        rfl
      · intro other hapart hother
        exact hother.applied happ hapart rfl trivial trivial
          (by simp [renotifyWrites, workAvailableEvent]) (by simp [renotifyWrites]) rfl
      · show quietJobs interval t db' = _
        rw [quietJobs, hjobs, scan_replaceRow hj hnew fun _ ha _ hb => db.job_eq_of_id ha hb, hq]
        simp [renotifySpec, quietJobs, bne]
      · intro i hi
        obtain ⟨m, hm, hmquiet, rfl⟩ := mem_scan.mp hi
        have hmem := hm
        rw [hjobs] at hmem
        rcases mem_replaceRow.mp hmem with ⟨hmem, hne⟩ | ⟨rfl, -⟩
        · rw [renotifySpec_qualifies hm, renotifySpec_qualifies hmem]
          exact isUnadvertised_applied (fun he => hne (db.job_eq_of_id hmem hj he)) happ
        · rw [hnew] at hmquiet
          cases hmquiet
      · rw [hq]
        rfl
      · rw [hq]
        rfl
      · intro e he
        rw [happ.outbox]
        exact List.mem_append_left _ he
      · rw [hjobs]
        refine .replaceRow hquiet ⟨rfl, ?_⟩
        unfold hasPendingWorkAvailable
        rw [happ.outbox, List.any_append]
        simp [renotifyWrites, workAvailableEvent]

end Specs

/-! ## Samples -/

/-- Draws at `t` that name nothing in the samples. -/
def sampleDraws (t : Int) (k : ℕ) : Env :=
  envAt t (BitVec.ofNat 128 (100 + 2 * k)) (BitVec.ofNat 128 (101 + 2 * k))

theorem exec_serviced {reqs : List Request} (h : Clocked 0 reqs) :
    Serviced (quiet.exec reqs).2 := by
  obtain ⟨w₀, ls, hinit, hrun⟩ := quiet_reachable h
  obtain ⟨trace, hservice⟩ := service_of_run hrun
  exact ⟨w₀, trace, hinit, hservice⟩

/-- Two jobs with a timeout of a second run on one worker, and the first is canceled. -/
def canceledAndRunning : List Request :=
  [⟨envAt 1 1 0, .register "tenant" ⟨7, "worker", "host", "workers", 2, [], ["email"], none⟩⟩,
    ⟨envAt 2 2 3, .submit "tenant" "first"
      ⟨"default", "email", "\x7b\x7d", 5, 3, 1, [], none⟩ ⟨"", ""⟩⟩,
    ⟨envAt 3 4 5, .claim "tenant" ⟨1, 7, 6, "default"⟩⟩,
    ⟨envAt 4 0 0, .start "tenant" ⟨2, 4, 5, 1, 7⟩⟩,
    ⟨envAt 5 12 13, .submit "tenant" "second"
      ⟨"default", "email", "\x7b\x7d", 5, 3, 1, [], none⟩ ⟨"", ""⟩⟩,
    ⟨envAt 6 14 15, .claim "tenant" ⟨1, 7, 16, "default"⟩⟩,
    ⟨envAt 7 0 0, .start "tenant" ⟨12, 14, 15, 1, 7⟩⟩,
    ⟨envAt 8 0 0, .requestCancel "tenant" 2⟩]

/-- Two jobs are submitted. -/
def twoSubmissions : List Request :=
  [⟨envAt 2 2 3, .submit "tenant" "first"
      ⟨"default", "email", "\x7b\x7d", 5, 3, 60, [], none⟩ ⟨"", ""⟩⟩,
    ⟨envAt 3 12 13, .submit "tenant" "second"
      ⟨"default", "email", "\x7b\x7d", 5, 3, 60, [], none⟩ ⟨"", ""⟩⟩]

/-- Only the second is advertised to the broker. -/
def advertised : World :=
  match OutboxCall.run 4 (quiet.exec twoSubmissions).2.db (.markPublished 13) with
  | .ok (_, db) => ⟨db, (quiet.exec twoSubmissions).2.clock⟩
  | .error _ => (quiet.exec twoSubmissions).2

theorem advertised_serviced : Serviced advertised := by
  obtain ⟨w₀, trace, hinit, hrun⟩ := exec_serviced (by decide +kernel : Clocked 0 twoSubmissions)
  unfold advertised
  split
  · next ans db hpublished =>
    exact ⟨w₀, _, hinit, hrun.append (.cons (.outbox hpublished) (.nil _))⟩
  · exact ⟨w₀, trace, hinit, hrun⟩

/-- The ids a scan finds in order are those listed. -/
def Finds {R : Type} (p : R → Bool) (key : R → Int) (id : R → UUID) (rows : List R)
    (ids : List UUID) : Prop :=
  ((rows.filter p).Pairwise fun a b => scanOrder.le (key a, id a) (key b, id b) = true) ∧
    (rows.filter p).map id = ids

instance {R : Type} (p : R → Bool) (key : R → Int) (id : R → UUID) (rows : List R)
    (ids : List UUID) : Decidable (Finds p key id rows ids) :=
  inferInstanceAs (Decidable (_ ∧ _))

/-- A second on, both runs are overdue; only the second is to time out, and a batch of
one does not reach it. -/
theorem canceledAndRunning_overdue :
    (quiet.exec canceledAndRunning).2.clock ≤ 1000020 ∧
      Draws 1000020 (sampleDraws 1000020) 2 (quiet.exec canceledAndRunning).2.db ∧
      Finds (isOverdueRun 1000020) (fun a => a.timeoutAt.getD 0) JobAttempt.id
        (quiet.exec canceledAndRunning).2.db.attempts.rows [4, 14] ∧
      Finds (isQuietJob 1000000 1000020) (fun j => j.lastNotificationAt.getD 0) Job.id
        (quiet.exec canceledAndRunning).2.db.jobs.rows [] ∧
      aheads ((timeoutSpec 1000020).qualifies (quiet.exec canceledAndRunning).2.db) [4, 14]
        = [1] := by
  decide +kernel

/-- Forty seconds on, both leases have run out, and no job is due. -/
theorem canceledAndRunning_lapsed :
    (quiet.exec canceledAndRunning).2.clock ≤ 40000000 ∧
      Draws 40000000 (sampleDraws 40000000) 2 (quiet.exec canceledAndRunning).2.db ∧
      Finds (isLapsed 40000000) Lease.expiresAt Lease.id
        (quiet.exec canceledAndRunning).2.db.leases.rows [5, 15] ∧
      Finds (isPromotable 40000000) Job.availableAt Job.id
        (quiet.exec canceledAndRunning).2.db.jobs.rows [] := by
  decide +kernel

/-- A second on, both jobs are past the interval; only the second has no pending event,
and a batch of one does not reach it. -/
theorem advertised_quiet :
    advertised.clock ≤ 1000020 ∧ Draws 1000020 (sampleDraws 1000020) 2 advertised.db ∧
      Finds (isQuietJob 1000000 1000020) (fun j => j.lastNotificationAt.getD 0) Job.id
        advertised.db.jobs.rows [2, 12] ∧
      aheads ((renotifySpec 1000000000 1000000 1000020).qualifies advertised.db) [2, 12]
        = [1] := by
  decide +kernel

theorem canceledAndRunning_serviced : Serviced (quiet.exec canceledAndRunning).2 :=
  exec_serviced (by decide)

/-! ## Scans that drain -/

/-- Passes of `PromoteDueJobs` after which nothing is due: none failed, each due job was
promoted once, and the counts say so. -/
structure PromotionDrained (t : Int) (db : DB) (passes : List (Pass SchedulerStats)) (db' : DB) :
    Prop where
  ok : ∀ p ∈ passes, p.error = none
  none_due : ∀ j ∈ db'.jobs.rows, isPromotable t j = false
  once : ∀ j ∈ db.jobs.rows, (if isPromotable t j then promotedJob t j else j) ∈ db'.jobs.rows
  promoted : (passes.map fun p => p.stats.promotedJobs).sum = (dueJobs t db).length
  skipped : ∀ p ∈ passes, p.stats.skipped = 0

/-- Passes of `ReconcileExpiredLeases` after which no active lease has run out: none
failed, each lapsed lease was closed once, and the counts say so. -/
structure ExpiryDrained (t : Int) (db : DB) (passes : List (Pass ReconcileStats)) (db' : DB) :
    Prop where
  ok : ∀ p ∈ passes, p.error = none
  none_lapsed : ∀ l ∈ db'.leases.rows, l.status = .active → t < l.expiresAt
  once : ∀ l ∈ db.leases.rows,
    (if isLapsed t l then closedLease .expired t l else l) ∈ db'.leases.rows
  expired : (passes.map fun p => p.stats.expiredLeases).sum = (lapsedLeases t db).length
  skipped : ∀ p ∈ passes, p.stats.skipped = 0

section Results

variable {w : World} {t : Int} {n b : ℕ} {envs : ℕ → Env}
variable {σ : Type} {S : ScanSpec σ} {db db' : DB} {passes : List (Pass σ)}

/-- Where every candidate qualifies, as many passes as cover them leave none. -/
theorem ScanSpec.Swept.drained (h : S.Swept t n (rounds (S.due db).length n) db passes db')
    (hn : 1 ≤ n) (hall : ∀ i, S.qualifies db i = true) :
    S.due db' = [] ∧ (passes.map fun p => S.done p.stats).sum = (S.due db).length ∧
      ∀ p ∈ passes, S.skipped p.stats = 0 := by
  have hnone : (S.due db).countP (fun i => !S.qualifies db i) = 0 := by
    rw [List.countP_eq_zero]
    intro i _
    simp [hall i]
  have hempty : S.due db' = [] := by
    have hclear : ∀ i ∈ S.due db', S.qualifies db i = false := by
      rw [h.due, iterate_sweep_clear_iff]
      refine .of_none_ahead (fun k hk => ?_) ?_
      · have hle := le_of_mem_aheads hk
        rwa [hnone, Nat.le_zero] at hle
      · rw [length_aheads]
        exact List.countP_le_length.trans (le_rounds_mul hn)
    rw [List.eq_nil_iff_forall_not_mem]
    intro i hi
    have hno := hclear i hi
    rw [hall i] at hno
    cases hno
  refine ⟨hempty, ?_, fun p hp => ?_⟩
  · have hdone := h.done
    rwa [hempty, List.length_nil, Nat.add_zero] at hdone
  · have hskipped := h.skipped p hp
    omega

/-- A condition that a scan asks about holds of no row when the scan is empty. -/
theorem scan_eq_nil {R κ ι : Type} {o : SortOrder (κ × ι)} {p : R → Bool} {key : R → κ} {id : R → ι}
    {rows : List R} (h : scan o p key id rows = []) {r : R} (hr : r ∈ rows) : p r = false := by
  rw [Bool.eq_false_iff]
  intro hp
  have hmem : id r ∈ scan o p key id rows := mem_scan.mpr ⟨r, hr, hp, rfl⟩
  rw [h] at hmem
  cases hmem

/-- **Promotion and lease expiry drain.** -/
theorem scans_drain (h : Serviced w) (ht : w.clock ≤ t) (hn : 1 ≤ n) (hdraws : Draws t envs b w.db)
    (hjobs : rounds (dueJobs t w.db).length n * n ≤ b)
    (hleases : rounds (lapsedLeases t w.db).length n * n ≤ b) :
    PromotionDrained t w.db
        (inTurn (promoteDueJobs t n) (rounds (dueJobs t w.db).length n) envs w.db).1
        (inTurn (promoteDueJobs t n) (rounds (dueJobs t w.db).length n) envs w.db).2 ∧
      ExpiryDrained t w.db
        (inTurn (reconcileExpiredLeases t n) (rounds (lapsedLeases t w.db).length n) envs w.db).1
        (inTurn (reconcileExpiredLeases t n) (rounds (lapsedLeases t w.db).length n) envs w.db).2 := by
  have hready : ScanSpec.Ready t ⟨w.db, envs, b⟩ := ⟨h.standing ht, hdraws⟩
  constructor
  · have hswept := (promoteSpec_works t).passes hn _ hready hjobs
    obtain ⟨hempty, hpromoted, hskipped⟩ := hswept.drained hn fun _ => rfl
    have hmoved : Advanced (isPromotable t) _ w.db.jobs.rows _ := hswept.moved
    have hnone : ∀ j ∈ (inTurn (promoteDueJobs t n) (rounds (dueJobs t w.db).length n) envs
        w.db).2.jobs.rows, isPromotable t j = false := fun j hj => scan_eq_nil hempty hj
    refine ⟨hswept.ok, hnone, fun j hj => ?_, hpromoted, hskipped⟩
    split_ifs with hp
    · obtain ⟨j', hj', rfl⟩ := hmoved.done hnone hj hp
      exact hj'
    · exact hmoved.kept hj (Bool.eq_false_iff.mpr hp)
  · have hswept := (expirySpec_works t).passes hn _ hready hleases
    obtain ⟨hempty, hexpired, hskipped⟩ := hswept.drained hn fun _ => rfl
    have hmoved : Advanced (isLapsed t) _ w.db.leases.rows _ := hswept.moved
    have hnone : ∀ l ∈ (inTurn (reconcileExpiredLeases t n) (rounds (lapsedLeases t w.db).length n)
        envs w.db).2.leases.rows, isLapsed t l = false := fun l hl => scan_eq_nil hempty hl
    refine ⟨hswept.ok, fun l hl hactive => ?_, fun l hl => ?_, hexpired, hskipped⟩
    · have hnot := hnone l hl
      simp only [isLapsed, hactive, beq_self_eq_true, Bool.true_and, decide_eq_false_iff_not,
        not_le] at hnot
      exact hnot
    · split_ifs with hp
      · obtain ⟨l', hl', rfl⟩ := hmoved.done hnone hl hp
        exact hl'
      · exact hmoved.kept hl (Bool.eq_false_iff.mpr hp)

/-- Two passes of one recover the two leases of the sample. -/
theorem scans_drain_sample :
    (lapsedLeases 40000000 (quiet.exec canceledAndRunning).2.db).length = 2 ∧
      ExpiryDrained 40000000 (quiet.exec canceledAndRunning).2.db
        (inTurn (reconcileExpiredLeases 40000000 1) 2 (sampleDraws 40000000)
          (quiet.exec canceledAndRunning).2.db).1
        (inTurn (reconcileExpiredLeases 40000000 1) 2 (sampleDraws 40000000)
          (quiet.exec canceledAndRunning).2.db).2 := by
  obtain ⟨hclock, hdraws, hfound, hnone⟩ := canceledAndRunning_lapsed
  have hleases : lapsedLeases 40000000 (quiet.exec canceledAndRunning).2.db = [5, 15] :=
    scan_of_sorted hfound
  have hjobs : dueJobs 40000000 (quiet.exec canceledAndRunning).2.db = [] := scan_of_sorted hnone
  have hdrained := (scans_drain canceledAndRunning_serviced hclock (le_refl 1) hdraws
    (by rw [hjobs]; decide) (by rw [hleases]; decide)).2
  rw [hleases] at hdrained ⊢
  exact ⟨rfl, hdrained⟩

/-! ## Scans that can be blocked -/

/-- Every attempt that was due to time out has timed out. -/
def RunsTimedOut (t : Int) (db db' : DB) : Prop :=
  ∀ a ∈ db.attempts.rows, isDueRun t db a = true →
    ∃ a' ∈ db'.attempts.rows, a'.id = a.id ∧ a'.status = .timedOut

/-- Every job that was due to be re-notified has been. -/
def JobsRenotified (interval t : Int) (db db' : DB) : Prop :=
  ∀ j ∈ db.jobs.rows, isUnadvertised interval t db j = true →
    ∃ j' ∈ db'.jobs.rows, Renotified t db' j j'

/-- Passes leave no candidate that qualified exactly when those can be cut into as many
batches, each with room for what is skipped before it. -/
theorem ScanSpec.Swept.clear_iff {k : ℕ} (h : S.Swept t n k db passes db') :
    (∀ i ∈ S.due db', S.qualifies db i = false) ↔
      Batchable n k (aheads (S.qualifies db) (S.due db)) := by
  rw [h.due, iterate_sweep_clear_iff]

theorem timeouts_reach (h : Serviced w) (ht : w.clock ≤ t) (hn : 1 ≤ n)
    (hdraws : Draws t envs b w.db) (hb : rounds (overdueRuns t w.db).length n * n ≤ b) :
    RunsTimedOut t w.db
        (inTurn (reconcileDueTimeouts t n) (rounds (overdueRuns t w.db).length n) envs w.db).2 ↔
      Batchable n (rounds (overdueRuns t w.db).length n)
        (aheads ((timeoutSpec t).qualifies w.db) (overdueRuns t w.db)) := by
  have hswept := (timeoutSpec_works t).passes hn _ ⟨h.standing ht, hdraws⟩ hb
  have hmoved : Advanced (isOverdueRun t) _ w.db.attempts.rows _ := hswept.moved
  refine (hmoved.treated_iff (fun a hdue => (Bool.and_eq_true_iff.mp hdue).1)
    (fun a a' hto => ⟨hto.1, ?_⟩) fun _ ha _ hb => DB.attempt_eq_of_id _ ha hb).trans
    hswept.clear_iff
  simp [isOverdueRun, hto.2]

/-- Candidates to skip do no harm behind those to time out. -/
theorem timeouts_unblocked (h : Serviced w) (ht : w.clock ≤ t) (hn : 1 ≤ n)
    (hdraws : Draws t envs b w.db) (hb : rounds (overdueRuns t w.db).length n * n ≤ b)
    (hnone : ∀ k ∈ aheads ((timeoutSpec t).qualifies w.db) (overdueRuns t w.db), k = 0) :
    RunsTimedOut t w.db
      (inTurn (reconcileDueTimeouts t n) (rounds (overdueRuns t w.db).length n) envs w.db).2 := by
  refine (timeouts_reach h ht hn hdraws hb).mpr (.of_none_ahead hnone ?_)
  rw [length_aheads]
  exact List.countP_le_length.trans (le_rounds_mul hn)

/-- A run behind a batch of candidates to skip never times out, however many passes
are made. -/
theorem timeouts_starved (h : Serviced w) (ht : w.clock ≤ t) (hn : 1 ≤ n) {k : ℕ}
    (hdraws : Draws t envs b w.db) (hb : k * n ≤ b) {a : JobAttempt} {ahead behind : List UUID}
    (ha : a ∈ w.db.attempts.rows) (hsplit : overdueRuns t w.db = ahead ++ a.id :: behind)
    (hblock : n ≤ ahead.countP fun i => !(timeoutSpec t).qualifies w.db i) :
    a ∈ (inTurn (reconcileDueTimeouts t n) k envs w.db).2.attempts.rows := by
  have hswept := (timeoutSpec_works t).passes hn k ⟨h.standing ht, hdraws⟩ hb
  have hmoved : Advanced (isOverdueRun t) _ w.db.attempts.rows _ := hswept.moved
  have hdue : a.id ∈ overdueRuns t (inTurn (reconcileDueTimeouts t n) k envs w.db).2 := by
    have hleft : overdueRuns t (inTurn (reconcileDueTimeouts t n) k envs w.db).2
        = (sweep n ((timeoutSpec t).qualifies w.db))^[k] (overdueRuns t w.db) := hswept.due
    rw [hleft, hsplit]
    exact mem_iterate_sweep_of_blocked hblock k
  obtain ⟨c, hc, hrun, hcid⟩ := mem_scan.mp hdue
  rcases hmoved a ha with hstill | ⟨-, a', ha', hid, hover⟩
  · exact hstill
  · have hsame := DB.attempt_eq_of_id _ hc ha' (hcid.trans hid.symm)
    simp [isOverdueRun, hsame, hover] at hrun

/-- With a batch of one, the canceled run of the sample keeps the other running. -/
theorem timeouts_starved_sample :
    ∃ a ∈ (quiet.exec canceledAndRunning).2.db.attempts.rows, isOverdueRun 1000020 a = true ∧
      a.id = 14 ∧ a ∈ (inTurn (reconcileDueTimeouts 1000020 1) 2 (sampleDraws 1000020)
        (quiet.exec canceledAndRunning).2.db).2.attempts.rows := by
  obtain ⟨hclock, hdraws, hfound, -, hahead⟩ := canceledAndRunning_overdue
  have hruns : overdueRuns 1000020 (quiet.exec canceledAndRunning).2.db = [4, 14] :=
    scan_of_sorted hfound
  have hmem : 14 ∈ overdueRuns 1000020 (quiet.exec canceledAndRunning).2.db := by
    rw [hruns]
    decide
  obtain ⟨a, ha, hover, hid⟩ := mem_scan.mp hmem
  have hfirst : ∀ (q : UUID → Bool) (x y : UUID), aheads q [x, y] = [1] →
      1 ≤ [x].countP fun i => !q i := by
    intro q x y
    cases hx : q x <;> cases hy : q y <;> simp [aheads, hx, hy]
  exact ⟨a, ha, hover, hid, timeouts_starved canceledAndRunning_serviced hclock (le_refl 1)
    hdraws (by decide) ha (hid.symm ▸ hruns) (hfirst _ 4 14 hahead)⟩

theorem renotify_reaches {after interval : Int} (h : Serviced w) (ht : w.clock ≤ t) (hn : 1 ≤ n)
    (hafter : 0 < after) (hint : after / 1000 ≤ interval) (hdraws : Draws t envs b w.db)
    (hb : rounds (quietJobs interval t w.db).length n * n ≤ b) :
    JobsRenotified interval t w.db (inTurn (renotifyStrandedQueued after interval t n)
        (rounds (quietJobs interval t w.db).length n) envs w.db).2 ↔
      Batchable n (rounds (quietJobs interval t w.db).length n)
        (aheads ((renotifySpec after interval t).qualifies w.db) (quietJobs interval t w.db)) := by
  have hswept := (renotifySpec_works t hint hafter).passes hn _ ⟨h.standing ht, hdraws⟩ hb
  have hpass : renotifyStrandedQueued after interval t n
      = boundedPass (renotifySpec after interval t).act (renotifySpec after interval t).due
        (renotifySpec after interval t).zero n := by
    funext envs db
    rw [renotifyStrandedQueued, if_neg (not_le.mpr hafter)]
    rfl
  rw [hpass]
  have hmoved : Advanced (isQuietJob interval t) _ w.db.jobs.rows _ := hswept.moved.2
  refine (hmoved.treated_iff (fun j hdue => (Bool.and_eq_true_iff.mp hdue).1)
    (fun j j' hto => ⟨hto.1 ▸ rfl, ?_⟩) fun _ ha _ hb => DB.job_eq_of_id _ ha hb).trans
    hswept.clear_iff
  rw [hto.1]
  exact isQuietJob_renotifiedJob (by omega) j

/-- **Timeouts and re-notification reach what they ought to when the candidates they
skip leave room.** What decides is how many candidates to skip stand before each that is
not: the latter must fit, in order, into as many batches as there are passes. With none
to skip before them they do; one with `n` before it never does (`Batchable.lt`). -/
theorem scans_reach_iff {after interval : Int} (h : Serviced w) (ht : w.clock ≤ t) (hn : 1 ≤ n)
    (hafter : 0 < after) (hint : after / 1000 ≤ interval) (hdraws : Draws t envs b w.db)
    (hruns : rounds (overdueRuns t w.db).length n * n ≤ b)
    (hjobs : rounds (quietJobs interval t w.db).length n * n ≤ b) :
    (RunsTimedOut t w.db
        (inTurn (reconcileDueTimeouts t n) (rounds (overdueRuns t w.db).length n) envs w.db).2 ↔
      Batchable n (rounds (overdueRuns t w.db).length n)
        (aheads ((timeoutSpec t).qualifies w.db) (overdueRuns t w.db))) ∧
    (JobsRenotified interval t w.db (inTurn (renotifyStrandedQueued after interval t n)
        (rounds (quietJobs interval t w.db).length n) envs w.db).2 ↔
      Batchable n (rounds (quietJobs interval t w.db).length n)
        (aheads ((renotifySpec after interval t).qualifies w.db) (quietJobs interval t w.db))) ∧
    ((∀ k ∈ aheads ((timeoutSpec t).qualifies w.db) (overdueRuns t w.db), k = 0) →
      RunsTimedOut t w.db
        (inTurn (reconcileDueTimeouts t n) (rounds (overdueRuns t w.db).length n) envs w.db).2) :=
  ⟨timeouts_reach h ht hn hdraws hruns, renotify_reaches h ht hn hafter hint hdraws hjobs,
    timeouts_unblocked h ht hn hdraws hruns⟩

/-- With a batch of two, the sample's canceled run leaves room for the other. -/
theorem scans_reach_sample :
    overdueRuns 1000020 (quiet.exec canceledAndRunning).2.db = [4, 14] ∧
      RunsTimedOut 1000020 (quiet.exec canceledAndRunning).2.db
        (inTurn (reconcileDueTimeouts 1000020 2) 1 (sampleDraws 1000020)
          (quiet.exec canceledAndRunning).2.db).2 := by
  obtain ⟨hclock, hdraws, hfound, hnone, hahead⟩ := canceledAndRunning_overdue
  have hruns : overdueRuns 1000020 (quiet.exec canceledAndRunning).2.db = [4, 14] :=
    scan_of_sorted hfound
  have hjobs : quietJobs 1000000 1000020 (quiet.exec canceledAndRunning).2.db = [] :=
    scan_of_sorted hnone
  have hreach := (scans_reach_iff (n := 2) canceledAndRunning_serviced hclock (by decide)
    (by decide : (0 : Int) < 1000000000) (by decide : (1000000000 : Int) / 1000 ≤ 1000000) hdraws
    (by rw [hruns]; decide) (by rw [hjobs]; decide)).1
  rw [hruns, hahead] at hreach
  have hbatch : Batchable 2 1 ([1] ++ []) := .cons (by decide) (.nil 0)
  exact ⟨hruns, hreach.mpr hbatch⟩

end Results

/-- With a batch of one, a canceled run keeps a run behind it from timing out, and a
job whose event is pending keeps a stranded job behind it from being advertised. -/
theorem scans_blocked :
    (∃ w t envs b, Serviced w ∧ w.clock ≤ t ∧ Draws t envs b w.db ∧
      rounds (overdueRuns t w.db).length 1 * 1 ≤ b ∧
      ¬ RunsTimedOut t w.db
        (inTurn (reconcileDueTimeouts t 1) (rounds (overdueRuns t w.db).length 1) envs w.db).2) ∧
    ∃ w t envs b, Serviced w ∧ w.clock ≤ t ∧ Draws t envs b w.db ∧
      rounds (quietJobs 1000000 t w.db).length 1 * 1 ≤ b ∧
      ¬ JobsRenotified 1000000 t w.db (inTurn (renotifyStrandedQueued 1000000000 1000000 t 1)
        (rounds (quietJobs 1000000 t w.db).length 1) envs w.db).2 := by
  constructor
  · obtain ⟨hclock, hdraws, hfound, -, hahead⟩ := canceledAndRunning_overdue
    have hruns : overdueRuns 1000020 (quiet.exec canceledAndRunning).2.db = [4, 14] :=
      scan_of_sorted hfound
    have hb : rounds (overdueRuns 1000020 (quiet.exec canceledAndRunning).2.db).length 1 * 1 ≤ 2 := by
      rw [hruns]
      decide
    refine ⟨_, _, _, 2, canceledAndRunning_serviced, hclock, hdraws, hb, ?_⟩
    rw [timeouts_reach canceledAndRunning_serviced hclock (le_refl 1) hdraws hb, hruns, hahead]
    exact fun hall => absurd (hall.lt List.mem_cons_self) (lt_irrefl 1)
  · obtain ⟨hclock, hdraws, hfound, hahead⟩ := advertised_quiet
    have hjobs : quietJobs 1000000 1000020 advertised.db = [2, 12] := scan_of_sorted hfound
    have hb : rounds (quietJobs 1000000 1000020 advertised.db).length 1 * 1 ≤ 2 := by
      rw [hjobs]
      decide
    refine ⟨_, _, _, 2, advertised_serviced, hclock, hdraws, hb, ?_⟩
    rw [renotify_reaches advertised_serviced hclock (le_refl 1) (by decide) (by decide) hdraws hb,
      hjobs, hahead]
    exact fun hall => absurd (hall.lt List.mem_cons_self) (lt_irrefl 1)

end TaskForge
