/-
No job is executed early.

`Claim` reads one column: a queued job is claimed once its `available_at` has
come. What was promised is more than that column holds. A caller may have asked
for a schedule, and every attempt that failed recorded a `retry_at`; no attempt
may be issued before any of them. The column is overwritten along the way, by a
retry, by an immediate requeue, and by nothing at all when a job is promoted.

The argument is one invariant of the case file (`Punctual`). A lease was issued
at or after every instant its job had promised by then, and every instant
promised so far has come, unless the job is still postponed until `available_at`
or has ended. Promotion is where the second half is used up, and a claim is where
the first half is renewed.
-/
import TaskForge.Permanence

open Relational Fallible

namespace TaskForge

/-! ## Promised instants -/

/-- `retry_at`, attempt by attempt. -/
def CaseFile.retries (cf : CaseFile) : List (Option Int) := cf.attempts.map JobAttempt.retryAt

/-- `acquired_at`, lease by lease. -/
def CaseFile.issues (cf : CaseFile) : List Int := cf.leases.map Lease.acquiredAt

/-- An instant promised to a job's caller, with this much of its history behind
it: its schedule, or the end of a backoff. -/
def NotBefore (j : Job) (retries : List (Option Int)) (t : Int) : Prop :=
  j.scheduledAt = some t ∨ some t ∈ retries

/-- A promise that is kept: the job will not run any more, the instant has come,
or the job waits for it. -/
def Kept (now : Int) (j : Job) (t : Int) : Prop :=
  j.status.terminal = true ∨ t ≤ now ∨
    ((j.status = .pending ∨ j.status = .retryWait) ∧ t ≤ j.availableAt)

/-- Nothing was issued early, and nothing will be. -/
structure Punctual (now : Int) (j : Job) (cf : CaseFile) : Prop where
  issued : ∀ i s, cf.issues[i]? = some s → ∀ t, NotBefore j (cf.retries.take i) t → t ≤ s
  promised : ∀ t, NotBefore j cf.retries t → Kept now j t

/-- A case file on time. The clock is past Go's zero time, which `setJobStatus`
takes for an absent instant. -/
def OnTime (now : Int) (cf : CaseFile) : Prop :=
  zeroTime ≤ now ∧ ∀ j, cf.job = some j → Punctual now j cf

section Moves

variable {env : Env} {now t : Int} {j j' : Job} {cf cf' : CaseFile}

/-! A rewritten row that keeps its instant keeps the column. -/

theorem CaseFile.retries_write {w : Writes} {a a' : JobAttempt} (hw : w.attempt = .replace a a')
    (h : a'.retryAt = a.retryAt) : (cf.write w).retries = cf.retries := by
  unfold CaseFile.retries CaseFile.write
  rw [hw]
  exact map_replaceRow JobAttempt.retryAt h cf.attempts

theorem CaseFile.issues_write {w : Writes} {l l' : Lease} (hw : w.lease = .replace l l')
    (h : l'.acquiredAt = l.acquiredAt) : (cf.write w).issues = cf.issues := by
  unfold CaseFile.issues CaseFile.write
  rw [hw]
  exact map_replaceRow Lease.acquiredAt h cf.leases

theorem Kept.mono {u : Int} (h : Kept now j u) (hle : now ≤ t) : Kept t j u := by
  rcases h with hterm | hu | hwait
  · exact .inl hterm
  · exact .inr (.inl (hu.trans hle))
  · exact .inr (.inr hwait)

/-- A job that runs or is about to has no promise ahead of it. -/
theorem Kept.come {u : Int} (h : Kept now j u) (hterm : j.status.terminal = false)
    (hwait : ¬ (j.status = .pending ∨ j.status = .retryWait)) : u ≤ now := by
  rcases h with h | h | h
  · rw [hterm] at h
    cases h
  · exact h
  · exact absurd h.1 hwait

theorem OnTime.mono (h : OnTime now cf) (hle : now ≤ t) : OnTime t cf := by
  refine ⟨h.1.trans hle, fun j hj => ?_⟩
  have hp := h.2 j hj
  exact ⟨hp.issued, fun u hu => (hp.promised u hu).mono hle⟩

/-- A move that keeps the three columns keeps what was issued; what it must see to
is that the promises are kept under the new status. -/
theorem Punctual.transfer (h : Punctual now j cf) (hs : j'.scheduledAt = j.scheduledAt)
    (hr : cf'.retries = cf.retries) (hi : cf'.issues = cf.issues)
    (hkept : ∀ u, Kept now j u → Kept t j' u) : Punctual t j' cf' := by
  refine ⟨?_, ?_⟩
  · intro i s his u hu
    unfold NotBefore at hu
    rw [hs, hr] at hu
    rw [hi] at his
    exact h.issued i s his u hu
  · intro u hu
    unfold NotBefore at hu
    rw [hs, hr] at hu
    exact hkept u (h.promised u hu)

/-- A job without history owes its schedule only. -/
theorem Punctual.birth (hattempts : cf.attempts = []) (hleases : cf.leases = [])
    (hkept : ∀ u, j.scheduledAt = some u → Kept t j u) : Punctual t j cf := by
  refine ⟨?_, ?_⟩
  · intro i s his
    simp [CaseFile.issues, hleases] at his
  · rintro u (hu | hu)
    · exact hkept u hu
    · simp [CaseFile.retries, hattempts] at hu

theorem Punctual.submit {scope : String} {req : NormalizedRequest} (hattempts : cf.attempts = [])
    (hleases : cf.leases = []) : Punctual env.clock.s₀ (submittedJob env scope req) cf := by
  refine .birth hattempts hleases fun u hu => ?_
  obtain ⟨ns, hns, rfl⟩ := Option.map_eq_some_iff.mp hu
  by_cases hd : isDelayed env.clock.s₀ req = true
  · refine .inr (.inr ⟨.inl ?_, ?_⟩)
    · simp [submittedJob, hd]
    · simp [submittedJob, hd, hns]
  · -- Not delayed: the requested instant is at or before the clock, and stays so
    -- when it is rounded down.
    have hcome : ¬ goTime env.clock.s₀ < ns := by simpa [isDelayed, hns] using hd
    refine .inr (.inl ?_)
    unfold storeTime
    unfold goTime at hcome
    omega

theorem Punctual.promote (h : Punctual now j cf) (hle : now ≤ env.clock.s₀)
    (hp : isPromotable env.clock.s₀ j = true) :
    Punctual env.clock.s₀ (promotedJob env.clock.s₀ j) (cf.write (promoteWrites env j)) := by
  refine h.transfer rfl rfl rfl fun u hu => ?_
  simp only [isPromotable, Bool.and_eq_true, Bool.or_eq_true, beq_iff_eq, decide_eq_true_eq] at hp
  obtain ⟨hstatus, havail⟩ := hp
  rcases hu with hterm | hcome | ⟨-, hwait⟩
  · rcases hstatus with hs | hs <;> rw [hs] at hterm <;> cases hterm
  · exact .inr (.inl (hcome.trans hle))
  · exact .inr (.inl (hwait.trans havail))

/-- A cancellation ends the job, or finds it with no promise ahead. -/
theorem Punctual.cancel (h : Punctual now j cf) (hle : now ≤ t) {target : JobStatus}
    (hc : cancelTarget j.status = some target) :
    Punctual t (cancelledJob target t j) (cf.write (cancelWrites target t j)) := by
  refine h.transfer rfl rfl rfl fun u hu => ?_
  by_cases hcanceled : target = .canceled
  · rw [hcanceled]
    exact .inl rfl
  · refine .inr (.inl (le_trans (hu.come ?_ ?_) hle))
    · cases hs : j.status <;> rw [hs] at hc <;> first | rfl | cases hc
    · rintro (hs | hs) <;> rw [hs] at hc <;> cases hc <;> exact hcanceled rfl

theorem Punctual.claim (h : Punctual now j cf) {scope : String} {req : ClaimRequest} {n : ℕ}
    (hlength : cf.attempts.length = cf.leases.length) (hle : now ≤ env.clock.s₁)
    (hq : j.status = .queued) :
    Punctual env.clock.s₁ (leasedJob env.clock.s₁ j) (cf.write (claimWrites env scope req n j)) := by
  have hr : (cf.write (claimWrites env scope req n j)).retries = cf.retries ++ [none] :=
    List.map_append
  have hi : (cf.write (claimWrites env scope req n j)).issues = cf.issues ++ [env.clock.s₁] :=
    List.map_append
  have hlen : cf.retries.length = cf.issues.length := by
    simp [CaseFile.retries, CaseFile.issues, hlength]
  have hcome : ∀ u, NotBefore j cf.retries u → u ≤ now := by
    intro u hu
    refine (h.promised u hu).come ?_ ?_
    · rw [hq]; rfl
    · rw [hq]
      rintro (hs | hs) <;> cases hs
  refine ⟨?_, ?_⟩
  · intro i s his u hu
    rw [hi] at his
    rw [hr] at hu
    by_cases hlt : i < cf.issues.length
    · -- An earlier lease: the new attempt is not among those before it.
      rw [List.getElem?_append_left hlt] at his
      rw [List.take_append_of_le_length (by omega)] at hu
      exact h.issued i s his u hu
    · have hs : s = env.clock.s₁ := by
        rw [List.getElem?_append_right (by omega)] at his
        have hmem := List.mem_of_getElem? his
        exact List.mem_singleton.mp hmem
      rw [hs]
      refine (hcome u ?_).trans hle
      rcases hu with hu | hu
      · exact .inl hu
      · have hmem := List.mem_of_mem_take hu
        rw [List.mem_append, List.mem_singleton] at hmem
        rcases hmem with hmem | hmem
        · exact .inr hmem
        · cases hmem
  · intro u hu
    refine .inr (.inl ((hcome u ?_).trans hle))
    rcases hu with hu | hu
    · exact .inl hu
    · rw [hr, List.mem_append, List.mem_singleton] at hu
      rcases hu with hu | hu
      · exact .inr hu
      · cases hu

theorem storedRetryAt_eq (d : Decision) (t : Int) : storedRetryAt d t = t + storedMillis d * 1000 := by
  unfold storedRetryAt storeTime goTime millisecond
  omega

/-- The promise a retry makes is kept by the status and the instant it moves the
job to. -/
theorem finalizedJob_kept (d : Decision) (j : Job) (hzero : zeroTime ≤ t) {u : Int}
    (hu : (if d.retry then some (storedRetryAt d t) else none) = some u) :
    Kept t (finalizedJob d t j) u := by
  by_cases hretry : d.retry = true
  · rw [if_pos hretry, Option.some.injEq] at hu
    have heq := storedRetryAt_eq d t
    by_cases hpos : 0 < storedMillis d
    · have hne : storedRetryAt d t ≠ zeroTime := by omega
      rw [finalizedJob, if_pos hretry, if_pos hpos, ← hu]
      exact .inr (.inr ⟨.inr rfl, by simp [movedJob, hne]⟩)
    · exact .inr (.inl (by omega))
  · rw [if_neg hretry] at hu
    cases hu

theorem Punctual.finalize {past : List JobAttempt} {pastLeases : List Lease} {a : JobAttempt}
    {l : Lease} (h : Punctual now j cf) (run : Executing now j cf past pastLeases a l)
    (hle : now ≤ t) (hzero : zeroTime ≤ t) (scope : String) (o : AttemptOutcome) (d : Decision) :
    Punctual t (finalizedJob d t j) (cf.write (finalizeWrites env scope o d t j a l)) := by
  have hsched : (finalizedJob d t j).scheduledAt = j.scheduledAt := by
    unfold finalizedJob
    split_ifs <;> rfl
  have hlen : past.length = pastLeases.length := run.history.runs.length_eq
  have hr₀ : cf.retries = past.map JobAttempt.retryAt ++ [a.retryAt] := by
    rw [CaseFile.retries, run.attempts, List.map_append, List.map_singleton]
  have hr : (cf.write (finalizeWrites env scope o d t j a l)).retries
      = past.map JobAttempt.retryAt ++ [(finalizedAttempt o d t a).retryAt] := by
    rw [CaseFile.retries, show (cf.write (finalizeWrites env scope o d t j a l)).attempts
      = past ++ [finalizedAttempt o d t a] from run.replace_attempt _, List.map_append,
      List.map_singleton]
  have hi : (cf.write (finalizeWrites env scope o d t j a l)).issues = cf.issues :=
    CaseFile.issues_write rfl rfl
  have hcome : ∀ u, NotBefore j cf.retries u → u ≤ now := by
    intro u hu
    refine (h.promised u hu).come ?_ ?_
    · rcases run.status.executing with hs | hs
      · exact not_terminal_of_executing hs
      · rw [hs]; rfl
    · rintro (hs | hs)
      · rcases run.status.executing with hex | hex <;> rw [hs] at hex <;> cases hex
      · rcases run.status.executing with hex | hex <;> rw [hs] at hex <;> cases hex
  refine ⟨?_, ?_⟩
  · -- Only the last attempt is rewritten, and no lease comes after it.
    intro i s his u hu
    have hilt : i < cf.issues.length := by
      rw [hi] at his
      exact (List.getElem?_eq_some_iff.mp his).1
    have hile : i ≤ (past.map JobAttempt.retryAt).length := by
      rw [CaseFile.issues, run.leases, List.length_map, List.length_append,
        List.length_singleton] at hilt
      rw [List.length_map]
      omega
    rw [hi] at his
    refine h.issued i s his u ?_
    unfold NotBefore at hu ⊢
    rw [hsched, hr, List.take_append_of_le_length hile] at hu
    rw [hr₀, List.take_append_of_le_length hile]
    exact hu
  · intro u hu
    unfold NotBefore at hu
    rw [hsched, hr, List.mem_append, List.mem_singleton] at hu
    rcases hu with hu | hu | hu
    · exact .inr (.inl ((hcome u (.inl hu)).trans hle))
    · refine .inr (.inl ((hcome u (.inr ?_)).trans hle))
      rw [hr₀]
      exact List.mem_append_left _ hu
    · exact finalizedJob_kept d j hzero hu.symm

end Moves

/-! ## Runs -/

/-- **Every lawful move keeps its case file on time.** -/
theorem Lawful.onTime {env : Env} {db db' : DB} {id : UUID} {w : Writes} {now : Int}
    (h : Lawful env db id w) (happ : w.Applied db db') (hgood : Good now (db.caseFile id))
    (hle : now ≤ env.clock.s₀) (hon : OnTime now (db.caseFile id)) :
    OnTime env.clock.s₂ (db'.caseFile id) := by
  rw [caseFile_applied happ h.about]
  suffices hs₀ : ∃ t, t ≤ env.clock.s₂ ∧ OnTime t ((db.caseFile id).write w) by
    obtain ⟨t, ht, honTime⟩ := hs₀
    exact honTime.mono ht
  have hs₂ : env.clock.s₀ ≤ env.clock.s₂ := env.clock.s₀_le_s₂
  have hzero : zeroTime ≤ env.clock.s₀ := hon.1.trans hle
  -- The job row a move leaves is the one it wrote.
  have hone : ∀ {j' : Job} {t : Int}, ((db.caseFile id).write w).job = some j' → t ≤ env.clock.s₂ →
      zeroTime ≤ t → Punctual t j' ((db.caseFile id).write w) →
      ∃ t, t ≤ env.clock.s₂ ∧ OnTime t ((db.caseFile id).write w) := by
    intro j' t hj' ht hz hp
    refine ⟨t, ht, hz, fun k hk => ?_⟩
    rw [hj'] at hk
    cases hk
    exact hp
  cases h with
  | submit scope key req trace unborn new queue =>
    obtain ⟨hattempts, hleases, -, -⟩ := hgood.unborn unborn
    exact hone rfl hs₂ hzero (.submit hattempts hleases)
  | replay scope key original unborn new ready =>
    obtain ⟨hattempts, hleases, -, -⟩ := hgood.unborn unborn
    exact hone rfl hs₂ hzero (.birth hattempts hleases fun u hu => by cases hu)
  | cancel j target job cancelable =>
    exact hone rfl hs₂ hzero ((hon.2 j job).cancel hle cancelable)
  | promote j job promotable =>
    exact hone rfl hs₂ hzero ((hon.2 j job).promote hle promotable)
  | renotify j after job stranded =>
    exact hone rfl hs₂ hzero ((hon.2 j job).transfer rfl rfl rfl fun u hu => hu.mono hle)
  | claim scope req s j job ready =>
    obtain ⟨⟨-, -, hq, -⟩, -⟩ := isEligible_eq_true.mp ready.eligible
    exact hone rfl env.clock.le₂ (hzero.trans env.clock.le₁)
      ((hon.2 j job).claim (hgood.phase job).ledger.length_eq (hle.trans env.clock.le₁) hq)
  | start s j a l holds live job attempt =>
    refine hone rfl hs₂ hzero ((hon.2 j holds.job).transfer rfl ?_ rfl fun u hu => ?_)
    · exact CaseFile.retries_write rfl rfl
    · exact .inr (.inl ((hu.come (by rw [job]; rfl) (by simp [job])).trans hle))
  | renew s j a l req holds ready =>
    refine hone holds.job hs₂ hzero ((hon.2 j holds.job).transfer rfl rfl ?_ fun u hu => hu.mono hle)
    exact CaseFile.issues_write rfl rfl
  | succeed scope result s j a l holds scope_eq ready
  | cancellation o ls j a l holds cancels identity =>
    refine hone rfl hs₂ hzero ((hon.2 j holds.job).transfer rfl ?_ ?_ fun _ _ => .inl rfl)
    · exact CaseFile.retries_write rfl rfl
    · exact CaseFile.issues_write rfl rfl
  | finalize scope o d j a l holds scope_eq ends decision identity =>
    obtain ⟨past, pastLeases, hrun⟩ := holds.executing hgood ends.executing
    exact hone rfl hs₂ hzero ((hon.2 j holds.job).finalize hrun hle hzero scope o d)

/-- Where a lease stands in its job's ledger, against its attempt. -/
theorem Sound.place {w : World} (h : Sound w) {j : Job} {a : JobAttempt} {l : Lease}
    (hj : j ∈ w.db.jobs.rows) (ha : a ∈ w.db.attempts.rows) (hl : l ∈ w.db.leases.rows)
    (hjob : l.jobID = j.id) (hattempt : l.attemptID = a.id) :
    ∃ i, (w.db.caseFile j.id).leases[i]? = some l ∧ a.attemptNumber = i + 1 := by
  have hphase := h.phase hj
  obtain ⟨i, hi⟩ := List.mem_iff_getElem?.mp (mem_caseFile_leases.mpr ⟨hl, hjob⟩)
  obtain ⟨b, hb, hbound, -⟩ := Ledger.exists_getElem? hphase.ledger hi
  have hbmem := (mem_caseFile_attempts.mp (List.mem_of_getElem? hb)).1
  have hba : b = a := w.db.attempt_eq_of_id hbmem ha (hbound.lease_attempt.symm.trans hattempt)
  exact ⟨i, hi, hba ▸ hphase.numbered.number_of_getElem? hb⟩

/-- **No early execution.** Every queued job is due, and every lease was issued at
or after its job's schedule and every `retry_at` that an earlier attempt
recorded. -/
theorem no_early_execution {w₀ w : World} {trace : List Label} (hinit : Initial w₀)
    (hclock : zeroTime ≤ w₀.clock) (hrun : Execution w₀ trace w) :
    (∀ j ∈ w.db.jobs.rows, j.status = .queued → j.availableAt ≤ w.clock) ∧
      ∀ l ∈ w.db.leases.rows, ∀ j ∈ w.db.jobs.rows, l.jobID = j.id →
        (∀ t, j.scheduledAt = some t → t ≤ l.acquiredAt) ∧
          ∀ a ∈ w.db.attempts.rows, l.attemptID = a.id → ∀ b ∈ w.db.attempts.rows,
            b.jobID = j.id → b.attemptNumber < a.attemptNumber →
            ∀ t, b.retryAt = some t → t ≤ l.acquiredAt := by
  have hsound : Sound w := hrun.invariant (fun h hs => hs.sound h) hinit.sound
  have hon := hinit.sound.casewise (P := OnTime) hrun OnTime.mono Lawful.onTime (fun id => by
    refine ⟨hclock, fun j hj => ?_⟩
    simp [DB.caseFile, hinit.jobs] at hj)
  refine ⟨fun j hj hq => ?_, fun l hl j hj hjob => ?_⟩
  · exact (((hsound.phase hj).waits (.inr (.inl hq))).due hq).1
  have hpunctual := (hon j.id).2 j (caseFile_job_of_mem hj)
  -- What was promised when the lease at place `i` was issued.
  have hissued : ∀ i, (w.db.caseFile j.id).leases[i]? = some l → ∀ t,
      NotBefore j ((w.db.caseFile j.id).retries.take i) t → t ≤ l.acquiredAt := by
    intro i hi t ht
    refine hpunctual.issued i l.acquiredAt ?_ t ht
    rw [CaseFile.issues, List.getElem?_map, hi, Option.map_some]
  refine ⟨fun t ht => ?_, fun a ha hattempt b hb hbjob hlt t ht => ?_⟩
  · obtain ⟨i, hi⟩ := List.mem_iff_getElem?.mp (mem_caseFile_leases.mpr ⟨hl, hjob⟩)
    exact hissued i hi t (.inl ht)
  · obtain ⟨i, hi, hnumber⟩ := hsound.place hj ha hl hjob hattempt
    refine hissued i hi t (.inr ?_)
    have hbmem : b ∈ (w.db.caseFile j.id).attempts.take i :=
      (hsound.phase hj).numbered.mem_take (mem_caseFile_attempts.mpr ⟨hb, hbjob⟩) (by omega)
    rw [CaseFile.retries, ← List.map_take, ← ht]
    exact List.mem_map_of_mem hbmem

/-- The sample job, failed once, promoted when its backoff has passed, and claimed
again. -/
def sampleBackoff : List Request := sampleStart ++ [sampleFail] ++ sampleRetry

theorem no_early_execution_retry :
    (quiet.exec sampleBackoff).2.db.attempts.rows.map JobAttempt.retryAt = [some 1000005, none] ∧
      ∀ l ∈ (quiet.exec sampleBackoff).2.db.leases.rows, l.attemptID = 9 →
        1000005 ≤ l.acquiredAt := by
  obtain ⟨⟨j, hj, hid⟩, hleases, ⟨a, ha, haid, hanum⟩, b, hb, hbjob, hbnum, hbretry⟩ :
      (∃ j ∈ (quiet.exec sampleBackoff).2.db.jobs.rows, j.id = 2) ∧
      (∀ l ∈ (quiet.exec sampleBackoff).2.db.leases.rows, l.jobID = 2) ∧
      (∃ a ∈ (quiet.exec sampleBackoff).2.db.attempts.rows, a.id = 9 ∧ a.attemptNumber = 2) ∧
      ∃ b ∈ (quiet.exec sampleBackoff).2.db.attempts.rows,
        b.jobID = 2 ∧ b.attemptNumber = 1 ∧ b.retryAt = some 1000005 := by decide +kernel
  refine ⟨by decide +kernel, fun l hl hlast => ?_⟩
  obtain ⟨-, hissued⟩ := no_early_execution quiet_initial (by decide : zeroTime ≤ quiet.clock)
    (World.exec_run (by decide : Clocked 0 sampleBackoff))
  refine (hissued l hl j hj ((hleases l hl).trans hid.symm)).2 a ha (hlast.trans haid.symm) b hb
    (hbjob.trans hid.symm) ?_ 1000005 hbretry
  omega

end TaskForge
