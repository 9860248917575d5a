/-
What every case file looks like, in every state the system reaches.

A job is waiting, executing or ended. Its attempts and leases are two columns of
one ledger, numbered from one; all of them are closed, except that an executing
job has one open run at the end. `Phase` says this with everything the results
need to know about each situation, and `Good` says it of a case file, born or
not. The work of this file is that every lawful move keeps it
(`Lawful.good`): one lemma per move, and the three facts they share, that the
open run is the last one, that closing it makes it history, and that nothing in
the history is open.
-/
import TaskForge.Machine
import TaskForge.Ledger

open Relational Fallible

namespace TaskForge

/-! ## Runs -/

/-- The attempt and the lease of one run of the job, and whom they bind. -/
structure Bound (id : UUID) (scope queue : String) (a : JobAttempt) (l : Lease) : Prop where
  attempt_job : a.jobID = id
  attempt_scope : a.scope = scope
  attempt_queue : a.queue = queue
  lease_job : l.jobID = id
  lease_scope : l.scope = scope
  lease_queue : l.queue = queue
  lease_attempt : l.attemptID = a.id
  worker : l.workerID = a.workerID
  session : l.workerSessionID = a.workerSessionID

/-- The columns of an attempt that say whose it is. -/
def JobAttempt.binding (a : JobAttempt) : UUID × UUID × String × String × UUID × UUID :=
  (a.id, a.jobID, a.scope, a.queue, a.workerID, a.workerSessionID)

/-- The columns of a lease that say whose it is. -/
def Lease.binding (l : Lease) : UUID × UUID × String × String × UUID × UUID :=
  (l.attemptID, l.jobID, l.scope, l.queue, l.workerID, l.workerSessionID)

/-- A run stays bound while the columns that bind it stay. -/
theorem Bound.transfer {id : UUID} {scope queue : String} {a a' : JobAttempt} {l l' : Lease}
    (h : Bound id scope queue a l) (ha : a'.binding = a.binding) (hl : l'.binding = l.binding) :
    Bound id scope queue a' l' := by
  simp only [JobAttempt.binding, Lease.binding, Prod.mk.injEq] at ha hl
  obtain ⟨haid, hajob, hascope, haqueue, hawork, hasess⟩ := ha
  obtain ⟨hlatt, hljob, hlscope, hlqueue, hlwork, hlsess⟩ := hl
  refine ⟨hajob.trans h.attempt_job, hascope.trans h.attempt_scope, haqueue.trans h.attempt_queue,
    hljob.trans h.lease_job, hlscope.trans h.lease_scope, hlqueue.trans h.lease_queue, ?_, ?_, ?_⟩
  · rw [hlatt, h.lease_attempt, haid]
  · rw [hlwork, h.worker, hawork]
  · rw [hlsess, h.session, hasess]

/-- An attempt that success or a worker's report closed did so while its lease and
its deadline were ahead. -/
def Timely (a : JobAttempt) (l : Lease) : Prop :=
  ∃ started finished timeout, a.startedAt = some started ∧ a.finishedAt = some finished ∧
    a.timeoutAt = some timeout ∧ started ≤ finished ∧ finished < l.expiresAt ∧ finished < timeout

/-- A run that is over. -/
structure ClosedRun (a : JobAttempt) (l : Lease) : Prop where
  attempt : isExecutingAttemptStatus a.status = false
  lease : l.status ≠ .active
  completed : a.status = .succeeded → l.status = .completed
  timely : a.status = .succeeded ∨ a.status = .failed → Timely a l

/-- The run that is going on, as of `now`. -/
structure OpenRun (now : Int) (a : JobAttempt) (l : Lease) : Prop where
  attempt : isExecutingAttemptStatus a.status = true
  lease : l.status = .active
  created : a.createdAt ≤ now
  acquired : l.acquiredAt ≤ now
  unreported : a.outcomeRequestID = none
  unstarted : a.status = .leased → a.startedAt = none ∧ a.timeoutAt = none
  started : a.status = .running → ∃ started timeout, a.startedAt = some started ∧
    a.timeoutAt = some timeout ∧ started ≤ now ∧ started < l.expiresAt

theorem OpenRun.mono {now now' : Int} {a : JobAttempt} {l : Lease} (h : OpenRun now a l)
    (hle : now ≤ now') : OpenRun now' a l := by
  refine ⟨h.attempt, h.lease, h.created.trans hle, h.acquired.trans hle, h.unreported, h.unstarted,
    fun hr => ?_⟩
  obtain ⟨started, timeout, hs, ht, hle', hexp⟩ := h.started hr
  exact ⟨started, timeout, hs, ht, hle'.trans hle, hexp⟩

/-- Closed, and not by success or cancellation. -/
def Retried (a : JobAttempt) : Prop :=
  a.status = .failed ∨ a.status = .timedOut ∨ a.status = .abandoned

/-- The runs a job has behind it. -/
structure History (id : UUID) (scope queue : String) (attempts : List JobAttempt)
    (leases : List Lease) : Prop where
  runs : List.Forall₂ (fun a l => Bound id scope queue a l ∧ ClosedRun a l) attempts leases
  numbers : Ledger.Numbered JobAttempt.attemptNumber attempts

/-! ## Phases -/

/-- The job's status against its open attempt's. -/
def Working (job : JobStatus) (attempt : AttemptStatus) : Prop :=
  (job = .leased ∧ attempt = .leased) ∨ (job = .running ∧ attempt = .running) ∨
    (job = .cancelRequested ∧ isExecutingAttemptStatus attempt = true)

/-- The dead-letter entry of a job whose last of `used` attempts is `a`. -/
structure Entry (j : Job) (a : JobAttempt) (used : ℕ) (e : DLQEntry) : Prop where
  job : e.jobID = j.id
  attempt : e.terminalAttemptID = some a.id
  permanent : e.reason = .permanentFailure ↔ a.failureClass = some .permanent
  exhausted : e.reason = .attemptsExhausted → (used : Int) = j.maxAttempts

/-- How a job that ended, ended. -/
inductive Final (j : Job) (cf : CaseFile) : Prop where
  | succeeded (status : j.status = .succeeded) (past : List JobAttempt) (a : JobAttempt)
      (attempts : cf.attempts = past ++ [a]) (retried : ∀ b ∈ past, Retried b)
      (last : a.status = .succeeded) (dlq : cf.dlq = [])
      (results : cf.results = [] ∨ ∃ r, cf.results = [r] ∧ r.attemptID = a.id)
  | canceled (status : j.status = .canceled)
      (closed : ∀ b ∈ cf.attempts, Retried b ∨ b.status = .canceled) (dlq : cf.dlq = [])
      (results : cf.results = [])
  | dead (status : j.status = .deadLettered) (past : List JobAttempt) (a : JobAttempt)
      (e : DLQEntry) (attempts : cf.attempts = past ++ [a]) (retried : ∀ b ∈ past, Retried b)
      (last : Retried a) (dlq : cf.dlq = [e]) (entry : Entry j a cf.attempts.length e)
      (results : cf.results = [])

/-- The waiting phase: no run is open, and the budget has room for another. -/
structure Waits (now : Int) (j : Job) (cf : CaseFile) : Prop where
  history : History j.id j.scope j.queue cf.attempts cf.leases
  retried : ∀ b ∈ cf.attempts, Retried b
  room : (cf.attempts.length : Int) < j.maxAttempts
  due : j.status = .queued → j.availableAt ≤ now ∧ 1 ≤ j.notificationGeneration
  dlq : cf.dlq = []
  results : cf.results = []

/-- The executing phase, with its run. -/
structure Executing (now : Int) (j : Job) (cf : CaseFile) (past : List JobAttempt)
    (pastLeases : List Lease) (a : JobAttempt) (l : Lease) : Prop where
  attempts : cf.attempts = past ++ [a]
  leases : cf.leases = pastLeases ++ [l]
  history : History j.id j.scope j.queue past pastLeases
  retried : ∀ b ∈ past, Retried b
  bound : Bound j.id j.scope j.queue a l
  number : a.attemptNumber = past.length + 1
  open_ : OpenRun now a l
  status : Working j.status a.status
  room : (past.length : Int) < j.maxAttempts
  dlq : cf.dlq = []
  results : cf.results = []

/-- Where a job stands. -/
inductive Phase (now : Int) (j : Job) (cf : CaseFile) : Prop where
  | waiting (status : j.status = .pending ∨ j.status = .queued ∨ j.status = .retryWait)
      (waits : Waits now j cf)
  | executing (past : List JobAttempt) (pastLeases : List Lease) (a : JobAttempt) (l : Lease)
      (run : Executing now j cf past pastLeases a l)
  | ended (history : History j.id j.scope j.queue cf.attempts cf.leases) (final : Final j cf)
      (room : (cf.attempts.length : Int) ≤ j.maxAttempts)

/-- What a case file looks like as of `now`. -/
def Good (now : Int) (cf : CaseFile) : Prop :=
  match cf.job with
  | none => cf.attempts = [] ∧ cf.leases = [] ∧ cf.dlq = [] ∧ cf.results = []
  | some j => Phase now j cf

section Reading

variable {now now' : Int} {j : Job} {cf : CaseFile} {a : JobAttempt} {l : Lease}
variable {past as : List JobAttempt} {pastLeases ls : List Lease} {id : UUID} {scope queue : String}

theorem Executing.mono (h : Executing now j cf past pastLeases a l) (hle : now ≤ now') :
    Executing now' j cf past pastLeases a l :=
  { h with open_ := h.open_.mono hle }

theorem Phase.mono (h : Phase now j cf) (hle : now ≤ now') : Phase now' j cf := by
  cases h with
  | waiting status waits =>
    exact .waiting status { waits with
      due := fun hq => ⟨(waits.due hq).1.trans hle, (waits.due hq).2⟩ }
  | executing past pastLeases a l run =>
    exact .executing past pastLeases a l (run.mono hle)
  | ended history final room => exact .ended history final room

theorem Good.mono (h : Good now cf) (hle : now ≤ now') : Good now' cf := by
  unfold Good at h ⊢
  cases hj : cf.job with
  | none => rw [hj] at h; exact h
  | some j => rw [hj] at h; exact Phase.mono h hle

theorem Good.phase (h : Good now cf) (hj : cf.job = some j) : Phase now j cf := by
  unfold Good at h
  rw [hj] at h
  exact h

/-- Nothing is on file about a job that was never born. -/
theorem Good.unborn (h : Good now cf) (hj : cf.job = none) :
    cf.attempts = [] ∧ cf.leases = [] ∧ cf.dlq = [] ∧ cf.results = [] := by
  unfold Good at h
  rw [hj] at h
  exact h

/-- An ended job's status is terminal. -/
theorem Final.terminal (h : Final j cf) : j.status.terminal = true := by
  cases h with
  | succeeded status => rw [status]; rfl
  | canceled status => rw [status]; rfl
  | dead status => rw [status]; rfl

theorem History.attempt_closed (h : History id scope queue as ls) (ha : a ∈ as) :
    isExecutingAttemptStatus a.status = false := by
  obtain ⟨l, -, -, hclosed⟩ := Ledger.exists_right h.runs ha
  exact hclosed.attempt

theorem History.lease_closed (h : History id scope queue as ls) (hl : l ∈ ls) :
    l.status ≠ .active := by
  obtain ⟨a, -, -, hclosed⟩ := Ledger.exists_left h.runs hl
  exact hclosed.lease

/-- Closing the last run makes it history. -/
theorem History.snoc (h : History id scope queue as ls) (hb : Bound id scope queue a l)
    (hc : ClosedRun a l) (hn : a.attemptNumber = as.length + 1) :
    History id scope queue (as ++ [a]) (ls ++ [l]) :=
  ⟨Ledger.snoc h.runs ⟨hb, hc⟩, h.numbers.snoc hn⟩

/-- A working job is not one that waits or ended. -/
theorem Working.executing {js : JobStatus} {as : AttemptStatus} (h : Working js as) :
    isExecutingJobStatus js = true ∨ js = .cancelRequested := by
  rcases h with ⟨rfl, -⟩ | ⟨rfl, -⟩ | ⟨rfl, -⟩
  · exact .inl rfl
  · exact .inl rfl
  · exact .inr rfl

/-- **The open run is the last one.** An attempt that is executing is the one at
the end of the ledger. -/
theorem Phase.run_of_executing (h : Phase now j cf) (ha : a ∈ cf.attempts)
    (hex : isExecutingAttemptStatus a.status = true) :
    ∃ past pastLeases l, Executing now j cf past pastLeases a l := by
  have hopen : ∀ {b : JobAttempt}, isExecutingAttemptStatus b.status = false → b ≠ a := by
    rintro b hb rfl
    rw [hex] at hb
    cases hb
  cases h with
  | waiting status waits => exact absurd rfl (hopen (waits.history.attempt_closed ha))
  | ended history => exact absurd rfl (hopen (history.attempt_closed ha))
  | executing past pastLeases a₀ l₀ run =>
    have haeq : a = a₀ := by
      rw [run.attempts, List.mem_append, List.mem_singleton] at ha
      rcases ha with hpast | hlast
      · exact absurd rfl (hopen (run.history.attempt_closed hpast))
      · exact hlast
    rw [haeq]
    exact ⟨past, pastLeases, l₀, run⟩

/-- The lease of an executing attempt is the one at the end, too. -/
theorem Phase.executing_of (h : Phase now j cf)
    (hids : ∀ x ∈ cf.attempts, ∀ y ∈ cf.attempts, x.id = y.id → x = y) (ha : a ∈ cf.attempts)
    (hl : l ∈ cf.leases) (hbound : l.attemptID = a.id)
    (hex : isExecutingAttemptStatus a.status = true) :
    ∃ past pastLeases, Executing now j cf past pastLeases a l := by
  obtain ⟨past, pastLeases, l₀, run⟩ := h.run_of_executing ha hex
  have hleq : l = l₀ := by
    rw [run.leases, List.mem_append, List.mem_singleton] at hl
    rcases hl with hpast | hlast
    · -- A past lease stands against a past attempt, which has this attempt's id.
      obtain ⟨b, hb, hbl, hclosed⟩ := Ledger.exists_left run.history.runs hpast
      have hbmem : b ∈ cf.attempts := by
        rw [run.attempts]
        exact List.mem_append_left _ hb
      have hba : b = a := hids b hbmem a ha (hbl.lease_attempt.symm.trans hbound)
      have hopen := hclosed.attempt
      rw [hba, hex] at hopen
      cases hopen
    · exact hlast
  rw [hleq]
  exact ⟨past, pastLeases, run⟩

theorem Executing.attempt_not_past (h : Executing now j cf past pastLeases a l) : a ∉ past := by
  intro hmem
  have hclosed := h.history.attempt_closed hmem
  rw [h.open_.attempt] at hclosed
  cases hclosed

theorem Executing.lease_not_past (h : Executing now j cf past pastLeases a l) : l ∉ pastLeases :=
  fun hmem => h.history.lease_closed hmem h.open_.lease

theorem Executing.replace_attempt (h : Executing now j cf past pastLeases a l) (a' : JobAttempt) :
    replaceRow a a' cf.attempts = past ++ [a'] := by
  rw [h.attempts, replaceRow_concat h.attempt_not_past]

theorem Executing.replace_lease (h : Executing now j cf past pastLeases a l) (l' : Lease) :
    replaceRow l l' cf.leases = pastLeases ++ [l'] := by
  rw [h.leases, replaceRow_concat h.lease_not_past]

/-- An executing run of the database is the open run of its job. -/
theorem Holds.executing {db : DB} (h : Holds db id j a l) (hgood : Good now (db.caseFile id))
    (hex : isExecutingAttemptStatus a.status = true) :
    ∃ past pastLeases, Executing now j (db.caseFile id) past pastLeases a l := by
  refine (hgood.phase h.job).executing_of ?_ h.attempt h.lease h.bound hex
  intro x hx y hy
  exact db.attempt_eq_of_id (mem_caseFile_attempts.mp hx).1 (mem_caseFile_attempts.mp hy).1

end Reading

/-! ## Moves of an executing job -/

section Executing

variable {env : Env} {now t : Int} {j : Job} {cf : CaseFile} {past : List JobAttempt}
  {pastLeases : List Lease} {a : JobAttempt} {l : Lease}

theorem Executing.start (h : Executing now j cf past pastLeases a l) (hle : now ≤ t)
    (hexp : t < l.expiresAt) :
    Executing t (runningJob t j) (cf.write (startWrites t j a)) past pastLeases
      (startedAttempt t (startDeadline t j) a) l where
  attempts := h.replace_attempt _
  leases := h.leases
  history := h.history
  retried := h.retried
  bound := h.bound.transfer rfl rfl
  number := h.number
  open_ :=
    { attempt := rfl
      lease := h.open_.lease
      created := h.open_.created.trans hle
      acquired := h.open_.acquired.trans hle
      unreported := h.open_.unreported
      unstarted := fun hleased => by cases hleased
      started := fun _ => ⟨t, _, rfl, rfl, le_rfl, hexp⟩ }
  status := .inr (.inl ⟨rfl, rfl⟩)
  room := h.room
  dlq := by rw [← h.dlq]; exact List.append_nil _
  results := by rw [← h.results]; exact List.append_nil _

theorem Executing.renew (h : Executing now j cf past pastLeases a l) (hle : now ≤ t) (id : UUID)
    (hexp : t < leaseExpiry env t) :
    Executing t j (cf.write (renewWrites env t id l)) past pastLeases a
      (renewedLease t (leaseExpiry env t) id l) where
  attempts := h.attempts
  leases := h.replace_lease _
  history := h.history
  retried := h.retried
  bound := h.bound.transfer rfl rfl
  number := h.number
  open_ :=
    { attempt := h.open_.attempt
      lease := h.open_.lease
      created := h.open_.created.trans hle
      acquired := h.open_.acquired.trans hle
      unreported := h.open_.unreported
      unstarted := h.open_.unstarted
      started := fun hrun => by
        obtain ⟨started, timeout, hs, ht, hle', -⟩ := h.open_.started hrun
        exact ⟨started, timeout, hs, ht, hle'.trans hle, (hle'.trans hle).trans_lt hexp⟩ }
  status := h.status
  room := h.room
  dlq := by rw [← h.dlq]; exact List.append_nil _
  results := by rw [← h.results]; exact List.append_nil _

/-- A cancellation requested of an executing job leaves its run open. -/
theorem Executing.cancel (h : Executing now j cf past pastLeases a l) (hle : now ≤ t) :
    Executing t (cancelledJob .cancelRequested t j) (cf.write (cancelWrites .cancelRequested t j))
      past pastLeases a l where
  attempts := h.attempts
  leases := h.leases
  history := h.history
  retried := h.retried
  bound := h.bound
  number := h.number
  open_ := h.open_.mono hle
  status := .inr (.inr ⟨rfl, h.open_.attempt⟩)
  room := h.room
  dlq := by rw [← h.dlq]; exact List.append_nil _
  results := by rw [← h.results]; exact List.append_nil _

/-- The started instant and the deadline of a run that is under way. -/
theorem Executing.timely (h : Executing now j cf past pastLeases a l) (hle : now ≤ t)
    (hrun : a.status = .running) (hexp : t < l.expiresAt) (hin : InTime t a)
    {a' : JobAttempt} {l' : Lease} (hs : a'.startedAt = a.startedAt)
    (hf : a'.finishedAt = some t) (ht : a'.timeoutAt = a.timeoutAt)
    (hl : l'.expiresAt = l.expiresAt) : Timely a' l' := by
  obtain ⟨started, timeout, hsa, hta, hle', -⟩ := h.open_.started hrun
  exact ⟨started, t, timeout, hs.trans hsa, hf, ht.trans hta, hle'.trans hle, hl ▸ hexp,
    hin timeout hta⟩

theorem Executing.succeed (h : Executing now j cf past pastLeases a l) (hle : now ≤ t)
    (scope : String) (result : Option ResultRef) {s : WorkerSession}
    (hready : SucceedReady t s j a l) :
    Phase t (succeededJob t j) (cf.write (succeedWrites env scope t result j a l)) := by
  have hattempts : (cf.write (succeedWrites env scope t result j a l)).attempts
      = past ++ [succeededAttempt t a] := h.replace_attempt _
  have hleases : (cf.write (succeedWrites env scope t result j a l)).leases
      = pastLeases ++ [closedLease .completed t l] := h.replace_lease _
  refine .ended ?_ (.succeeded rfl past (succeededAttempt t a) hattempts h.retried rfl ?_ ?_) ?_
  · rw [hattempts, hleases]
    refine h.history.snoc (h.bound.transfer rfl rfl) ⟨rfl, ?_, fun _ => rfl, fun _ => ?_⟩ h.number
    · simp [closedLease]
    · exact h.timely hle hready.attempt hready.live.unexpired hready.inTime rfl rfl rfl rfl
  · exact h.dlq ▸ List.append_nil _
  · have hresults : (cf.write (succeedWrites env scope t result j a l)).results
        = (result.map (resultRow env.clock.start scope j.id a.id)).toList := by
      show cf.results ++ _ = _
      rw [h.results]
      rfl
    rw [hresults]
    cases result with
    | none => exact .inl rfl
    | some ref => exact .inr ⟨_, rfl, rfl⟩
  · rw [hattempts, List.length_append, List.length_singleton]
    have := h.room
    show ((past.length + 1 : ℕ) : Int) ≤ j.maxAttempts
    omega

/-- Every way of ending without success closes the run, and leaves an attempt that
may be tried again. -/
theorem Executing.ends (h : Executing now j cf past pastLeases a l) (hle : now ≤ t)
    {o : AttemptOutcome} (hends : Ends t j a l o) (d : Decision) :
    ClosedRun (finalizedAttempt o d t a) (closedLease o.leaseStatus t l) ∧
      Retried (finalizedAttempt o d t a) := by
  cases hends with
  | failed s report valid live inTime job attempt =>
    refine ⟨⟨rfl, by simp [closedLease, failedOutcome], (fun hs => by cases hs), fun _ => ?_⟩,
      .inl rfl⟩
    exact h.timely hle attempt live.unexpired inTime rfl rfl rfl rfl
  | timedOut | outlived =>
    refine ⟨⟨rfl, by simp [closedLease, timeoutOutcome], (fun hs => by cases hs), ?_⟩, .inr (.inl rfl)⟩
    rintro (hs | hs) <;> cases hs
  | abandoned lapsed job early =>
    refine ⟨⟨rfl, by simp [closedLease, abandonedOutcome], (fun hs => by cases hs), ?_⟩,
      .inr (.inr rfl)⟩
    rintro (hs | hs) <;> cases hs

theorem Executing.finalize (h : Executing now j cf past pastLeases a l) (hle : now ≤ t)
    (scope : String) {o : AttemptOutcome} {d : Decision} (hends : Ends t j a l o)
    (hd : d.Sound o.class_ a.attemptNumber j.maxAttempts) :
    Phase t (finalizedJob d t j) (cf.write (finalizeWrites env scope o d t j a l)) := by
  obtain ⟨hclosed, hretried⟩ := h.ends hle hends d
  have hattempts : (cf.write (finalizeWrites env scope o d t j a l)).attempts
      = past ++ [finalizedAttempt o d t a] := h.replace_attempt _
  have hleases : (cf.write (finalizeWrites env scope o d t j a l)).leases
      = pastLeases ++ [closedLease o.leaseStatus t l] := h.replace_lease _
  have hhistory : History j.id j.scope j.queue
      (cf.write (finalizeWrites env scope o d t j a l)).attempts
      (cf.write (finalizeWrites env scope o d t j a l)).leases := by
    rw [hattempts, hleases]
    exact h.history.snoc (h.bound.transfer rfl rfl) hclosed h.number
  have hlength : ((cf.write (finalizeWrites env scope o d t j a l)).attempts.length : Int)
      = a.attemptNumber := by
    rw [hattempts, List.length_append, List.length_singleton, h.number]
  have hroom : (a.attemptNumber : Int) ≤ j.maxAttempts := by
    have := h.room
    rw [h.number]
    push_cast
    omega
  have hresults : (cf.write (finalizeWrites env scope o d t j a l)).results = [] :=
    h.results ▸ List.append_nil _
  have hall : ∀ b ∈ (cf.write (finalizeWrites env scope o d t j a l)).attempts, Retried b := by
    intro b hb
    rw [hattempts, List.mem_append, List.mem_singleton] at hb
    rcases hb with hb | rfl
    · exact h.retried b hb
    · exact hretried
  by_cases hretry : d.retry = true
  · have hdlq : (cf.write (finalizeWrites env scope o d t j a l)).dlq = [] := by
      show cf.dlq ++ (finalizeWrites env scope o d t j a l).dlq = []
      simp only [finalizeWrites, if_pos hretry, h.dlq, List.append_nil]
    have hlt := hd.retry_budget hretry
    by_cases hpos : 0 < storedMillis d
    · have hjob : finalizedJob d t j = movedJob .retryWait (storedRetryAt d t) t j := by
        rw [finalizedJob, if_pos hretry, if_pos hpos]
      rw [hjob]
      exact .waiting (.inr (.inr rfl)) ⟨hhistory, hall, hlength ▸ hlt, (fun hq => by cases hq), hdlq,
        hresults⟩
    · have hjob : finalizedJob d t j = requeuedJob t j := by
        rw [finalizedJob, if_pos hretry, if_neg hpos]
      rw [hjob]
      exact .waiting (.inr (.inl rfl)) ⟨hhistory, hall, hlength ▸ hlt,
        fun _ => ⟨le_rfl, Nat.le_add_left 1 _⟩, hdlq, hresults⟩
  · have hdead : d.retry = false := by simpa using hretry
    have hreason := hd.dead_reason hdead
    have hjob : finalizedJob d t j = movedJob .deadLettered zeroTime t j := by
      rw [finalizedJob, if_neg hretry]
    have hdlq : (cf.write (finalizeWrites env scope o d t j a l)).dlq
        = [⟨env.id₁, scope, l.queue, j.id, some a.id,
          if o.class_ = .permanent then .permanentFailure else .attemptsExhausted, t⟩] := by
      show cf.dlq ++ (finalizeWrites env scope o d t j a l).dlq = _
      simp only [finalizeWrites, if_neg hretry, h.dlq, hreason, List.nil_append, Option.map_some,
        Option.toList_some]
    rw [hjob]
    refine .ended hhistory (.dead rfl past _ _ hattempts h.retried hretried hdlq ?_ hresults)
      (hlength ▸ hroom)
    refine ⟨rfl, rfl, ?_, ?_⟩
    · show (if o.class_ = .permanent then DLQReason.permanentFailure else .attemptsExhausted)
        = .permanentFailure ↔ some o.class_ = some FailureClass.permanent
      by_cases hperm : o.class_ = .permanent <;> simp [hperm]
    · intro hex
      have hperm : o.class_ ≠ .permanent := by
        intro hperm
        simp [hperm] at hex
      have hle' := hd.dead_budget hdead hperm
      rw [hlength]
      show (a.attemptNumber : Int) = j.maxAttempts
      omega

theorem Executing.cancellation (h : Executing now j cf past pastLeases a l) (o : Option UUID)
    {ls : LeaseStatus} (hls : ls ≠ .active) :
    Phase t (canceledJob t j) (cf.write (cancellationWrites o ls t j a l)) := by
  have hattempts : (cf.write (cancellationWrites o ls t j a l)).attempts
      = past ++ [canceledAttempt o t a] := h.replace_attempt _
  have hleases : (cf.write (cancellationWrites o ls t j a l)).leases
      = pastLeases ++ [closedLease ls t l] := h.replace_lease _
  refine .ended ?_ (.canceled rfl ?_ ?_ ?_) ?_
  · rw [hattempts, hleases]
    refine h.history.snoc (h.bound.transfer rfl rfl) ⟨rfl, hls, (fun hs => by cases hs), ?_⟩ h.number
    rintro (hs | hs) <;> cases hs
  · intro b hb
    rw [hattempts, List.mem_append, List.mem_singleton] at hb
    rcases hb with hb | rfl
    · exact .inl (h.retried b hb)
    · exact .inr rfl
  · exact h.dlq ▸ List.append_nil _
  · exact h.results ▸ List.append_nil _
  · rw [hattempts, List.length_append, List.length_singleton]
    have := h.room
    show ((past.length + 1 : ℕ) : Int) ≤ j.maxAttempts
    omega

end Executing

/-! ## Moves of a waiting job -/

section Waiting

variable {env : Env} {now t : Int} {j : Job} {cf : CaseFile}

/-- The status of a waiting job is enough to know that it waits. -/
theorem Phase.waits (h : Phase now j cf)
    (hs : j.status = .pending ∨ j.status = .queued ∨ j.status = .retryWait) : Waits now j cf := by
  cases h with
  | waiting status waits => exact waits
  | executing past pastLeases a l run =>
    rcases run.status.executing with hex | hex
    · rcases hs with hs | hs | hs <;> rw [hs] at hex <;> cases hex
    · rcases hs with hs | hs | hs <;> rw [hs] at hex <;> cases hex
  | ended history final room =>
    have hterm := final.terminal
    rcases hs with hs | hs | hs <;> rw [hs] at hterm <;> cases hterm

/-- A birth: no run yet, and a budget. -/
theorem Good.birth (h : Good now cf) (hborn : cf.job = none) {w : Writes} (hj : w.job = .insert j)
    (ha : w.attempt = .keep) (hl : w.lease = .keep) (hd : w.dlq = []) (hr : w.results = [])
    (hs : j.status = .pending ∨ j.status = .queued) (hmax : 1 ≤ j.maxAttempts)
    (hdue : j.status = .queued → j.availableAt ≤ t ∧ 1 ≤ j.notificationGeneration) :
    Good t (cf.write w) := by
  obtain ⟨hattempts, hleases, hdlq, hresults⟩ := h.unborn hborn
  have hwj : (cf.write w).job = some j := by simp [CaseFile.write, hj]
  have hwa : (cf.write w).attempts = [] := by simp [CaseFile.write, ha, RowWrite.apply, hattempts]
  have hwl : (cf.write w).leases = [] := by simp [CaseFile.write, hl, RowWrite.apply, hleases]
  unfold Good
  rw [hwj]
  refine .waiting (hs.imp_right .inl) ⟨?_, ?_, ?_, hdue, ?_, ?_⟩
  · rw [hwa, hwl]
    exact ⟨.nil, Ledger.Numbered.nil⟩
  · rw [hwa]
    intro b hb
    cases hb
  · rw [hwa]
    exact_mod_cast hmax
  · simp [CaseFile.write, hd, hdlq]
  · simp [CaseFile.write, hr, hresults]

theorem Phase.promote (h : Phase now j cf) (hp : isPromotable env.clock.s₀ j = true) :
    Phase env.clock.s₀ (promotedJob env.clock.s₀ j) (cf.write (promoteWrites env j)) := by
  simp only [isPromotable, Bool.and_eq_true, Bool.or_eq_true, beq_iff_eq, decide_eq_true_eq] at hp
  obtain ⟨hstatus, havail⟩ := hp
  have hw : Waits now j cf := h.waits (by rcases hstatus with hs | hs <;> simp [hs])
  exact .waiting (.inr (.inl rfl)) ⟨hw.history, hw.retried, hw.room,
    fun _ => ⟨havail, Nat.le_add_left 1 _⟩, hw.dlq ▸ List.append_nil _,
    hw.results ▸ List.append_nil _⟩

theorem Phase.renotify (h : Phase now j cf) (hq : j.status = .queued) :
    Phase now (renotifiedJob env.clock.s₀ j) (cf.write (renotifyWrites env j)) := by
  have hw : Waits now j cf := h.waits (.inr (.inl hq))
  exact .waiting (.inr (.inl hq)) ⟨hw.history, hw.retried, hw.room, hw.due,
    hw.dlq ▸ List.append_nil _, hw.results ▸ List.append_nil _⟩

/-- A cancellation ends a waiting job at once, and asks an executing one to
stop. -/
theorem Phase.cancel (h : Phase now j cf) (hle : now ≤ t) {target : JobStatus}
    (hc : cancelTarget j.status = some target) :
    Phase t (cancelledJob target t j) (cf.write (cancelWrites target t j)) := by
  cases h with
  | waiting status waits =>
    have htarget : target = .canceled := by
      rcases status with hs | hs | hs <;> rw [hs] at hc <;> cases hc <;> rfl
    subst htarget
    exact .ended waits.history (.canceled rfl (fun b hb => .inl (waits.retried b hb))
      (waits.dlq ▸ List.append_nil _) (waits.results ▸ List.append_nil _)) waits.room.le
  | executing past pastLeases a l run =>
    have htarget : target = .cancelRequested := by
      rcases run.status with ⟨hs, -⟩ | ⟨hs, -⟩ | ⟨hs, -⟩ <;> rw [hs] at hc <;> cases hc <;> rfl
    subst htarget
    exact .executing past pastLeases a l (run.cancel hle)
  | ended history final room =>
    have hterm := final.terminal
    cases hs : j.status <;> rw [hs] at hterm hc <;> cases hterm <;> cases hc

theorem Phase.claim (h : Phase now j cf) {scope : String} {req : ClaimRequest}
    (hq : j.status = .queued) (hscope : j.scope = scope) :
    Phase env.clock.s₂ (leasedJob env.clock.s₁ j)
      (cf.write (claimWrites env scope req cf.nextNumber j)) := by
  have hw : Waits now j cf := h.waits (.inr (.inl hq))
  have hnumber : cf.nextNumber = cf.attempts.length + 1 := by
    rw [CaseFile.nextNumber, hw.history.numbers.foldr_max]
  refine .executing cf.attempts cf.leases (claimedAttempt env scope req cf.nextNumber j)
    (claimedLease env scope req j) ?_
  exact
    { attempts := rfl
      leases := rfl
      history := hw.history
      retried := hw.retried
      bound := ⟨rfl, hscope.symm, rfl, rfl, hscope.symm, rfl, rfl, rfl, rfl⟩
      number := hnumber
      open_ :=
        { attempt := rfl
          lease := rfl
          created := env.clock.start_le.trans env.clock.s₀_le_s₂
          acquired := env.clock.le₂
          unreported := rfl
          unstarted := fun _ => ⟨rfl, rfl⟩
          started := fun hr => by cases hr }
      status := .inl ⟨rfl, rfl⟩
      room := hw.room
      dlq := hw.dlq ▸ List.append_nil _
      results := hw.results ▸ List.append_nil _ }

end Waiting

/-! ## Every move -/

section Moves

variable {env : Env} {db db' : DB} {id : UUID} {w : Writes} {now : Int}
variable {j : Job} {l : Lease} {t : Int} {a : JobAttempt} {o : AttemptOutcome} {ls : LeaseStatus}

/-- The row a move inserts or rewrites is in the table it leaves. -/
theorem Writes.Applied.job_mem (h : w.Applied db db') (hj : w.job = .insert j) :
    j ∈ db'.jobs.rows := by
  rw [h.jobs, hj]
  exact List.mem_concat_self

theorem Writes.Applied.lease_mem {l' : Lease} (h : w.Applied db db')
    (hl : w.lease = .replace l l') (hmem : l ∈ db.leases.rows) : l' ∈ db'.leases.rows := by
  rw [h.leases, hl]
  exact mem_replaceRow.mpr (.inr ⟨rfl, hmem⟩)

theorem Ends.executing (h : Ends t j a l o) : isExecutingAttemptStatus a.status = true := by
  cases h with
  | failed s report valid live inTime job attempt => rw [attempt]; rfl
  | timedOut due => rw [due.attempt]; rfl
  | outlived lapsed => exact lapsed.attempt
  | abandoned lapsed => exact lapsed.attempt

theorem Cancels.executing {o : Option UUID} (h : Cancels t j a l o ls) :
    isExecutingAttemptStatus a.status = true ∧ ls ≠ .active := by
  cases h with
  | acknowledged s o live job attempt => exact ⟨attempt, by simp⟩
  | lapsed lapsed job => exact ⟨lapsed.attempt, by simp⟩

/-- A way of ending needs a job that is executing and a lease that is active. -/
theorem Ends.rows (h : Ends t j a l o) :
    isExecutingJobStatus j.status = true ∧ l.status = .active := by
  cases h with
  | failed s report valid live inTime job attempt => exact ⟨by rw [job]; rfl, live.active⟩
  | timedOut due => exact ⟨by rw [due.job]; rfl, due.active⟩
  | outlived lapsed job outlived => exact ⟨job, lapsed.active⟩
  | abandoned lapsed job early => exact ⟨job, lapsed.active⟩

theorem Cancels.rows {o : Option UUID} (h : Cancels t j a l o ls) :
    j.status = .cancelRequested ∧ l.status = .active := by
  cases h with
  | acknowledged s o live job attempt => exact ⟨job, live.active⟩
  | lapsed lapsed job => exact ⟨job, lapsed.active⟩

/-- **Every lawful move keeps its case file good.** -/
theorem Lawful.good (h : Lawful env db id w) (happ : w.Applied db db')
    (hgood : Good now (db.caseFile id)) (hle : now ≤ env.clock.s₀) :
    Good env.clock.s₂ (db'.caseFile id) := by
  rw [caseFile_applied happ h.about]
  have hs₂ : env.clock.s₀ ≤ env.clock.s₂ := env.clock.s₀_le_s₂
  cases h with
  | submit scope key req trace unborn new queue =>
    have hchecked := db'.job_checked (happ.job_mem rfl)
    refine hgood.birth unborn rfl rfl rfl rfl rfl ?_ hchecked.maxAttempts.1 ?_
    · by_cases hd : isDelayed env.clock.s₀ req = true <;> simp [submittedJob, hd]
    · by_cases hd : isDelayed env.clock.s₀ req = true
      · simp [submittedJob, hd]
      · simp [submittedJob, hd, hs₂]
  | replay scope key original unborn new ready =>
    have hchecked := db'.job_checked (happ.job_mem rfl)
    exact hgood.birth unborn rfl rfl rfl rfl rfl (.inr rfl) hchecked.maxAttempts.1
      (fun _ => ⟨hs₂, le_rfl⟩)
  | cancel j target job cancelable =>
    exact ((hgood.phase job).cancel hle cancelable).mono hs₂
  | promote j job promotable =>
    exact ((hgood.phase job).promote promotable).mono hs₂
  | renotify j after job stranded =>
    simp only [isStranded, Bool.and_eq_true, beq_iff_eq] at stranded
    exact ((hgood.phase job).renotify stranded.1.1.1).mono (hle.trans hs₂)
  | claim scope req s j job ready =>
    obtain ⟨⟨hscope, -, hq, -⟩, -⟩ := isEligible_eq_true.mp ready.eligible
    exact (hgood.phase job).claim hq hscope
  | start s j a l holds live job attempt =>
    obtain ⟨past, pastLeases, hrun⟩ := holds.executing hgood (by rw [attempt]; rfl)
    exact (Phase.executing _ _ _ _ (hrun.start hle live.unexpired)).mono hs₂
  | renew s j a l req holds ready =>
    obtain ⟨past, pastLeases, hrun⟩ := holds.executing hgood ready.attempt
    have hchecked := db'.lease_checked
      (happ.lease_mem rfl (mem_caseFile_leases.mp holds.lease).1)
    have hjob : ((db.caseFile id).write
        (renewWrites env env.clock.s₀ req.renewalRequestID l)).job = some j := holds.job
    unfold Good
    rw [hjob]
    exact (Phase.executing _ _ _ _ (hrun.renew hle _ hchecked.renewed.2)).mono hs₂
  | succeed scope result s j a l holds scope_eq ready =>
    obtain ⟨past, pastLeases, hrun⟩ := holds.executing hgood (by rw [ready.attempt]; rfl)
    exact (hrun.succeed hle scope result ready).mono hs₂
  | finalize scope o d j a l holds scope_eq ends decision identity =>
    obtain ⟨past, pastLeases, hrun⟩ := holds.executing hgood ends.executing
    exact (hrun.finalize hle scope ends (decide_sound decision)).mono hs₂
  | cancellation o ls j a l holds cancels identity =>
    obtain ⟨past, pastLeases, hrun⟩ := holds.executing hgood cancels.executing.1
    exact (hrun.cancellation o cancels.executing.2).mono hs₂

/-! ## The database as a whole -/

/-- A move leaves every job in a queue that exists. -/
theorem Lawful.queue_known (h : Lawful env db id w)
    (hq : ∀ j ∈ db.jobs.rows, ∃ q ∈ db.queues.rows, q.name = j.queue) :
    ∀ j ∈ w.job.apply db.jobs.rows, ∃ q ∈ db.queues.rows, q.name = j.queue := by
  intro j hj
  rcases RowWrite.mem_apply hj with hmem | hins | ⟨old, hold, hrep⟩
  · exact hq j hmem
  · cases h with
    | submit scope key req trace unborn new queue => cases hins; exact queue
    | replay scope key original unborn new ready => cases hins; exact ready.queue
    | _ => cases hins
  · suffices hqueue : j.queue = old.queue by rw [hqueue]; exact hq old hold
    cases h with
    | finalize => cases hrep; exact finalizedJob_queue _ _ _
    | _ => cases hrep <;> rfl

/-- A move leaves every attempt bound to a session that exists. -/
theorem Lawful.session_known (h : Lawful env db id w)
    (hs : ∀ a ∈ db.attempts.rows, ∃ s ∈ db.sessions.rows,
      s.id = a.workerSessionID ∧ s.workerID = a.workerID ∧ s.scope = a.scope) :
    ∀ a ∈ w.attempt.apply db.attempts.rows, ∃ s ∈ db.sessions.rows,
      s.id = a.workerSessionID ∧ s.workerID = a.workerID ∧ s.scope = a.scope := by
  intro a ha
  rcases RowWrite.mem_apply ha with hmem | hins | ⟨old, hold, hrep⟩
  · exact hs a hmem
  · cases h with
    | claim scope req s j job ready =>
      cases hins
      exact ⟨s, ready.session_mem, ready.session_id, ready.session_worker, ready.session_scope⟩
    | _ => cases hins
  · obtain ⟨s, hmem, hid, hworker, hscope⟩ := hs old hold
    refine ⟨s, hmem, ?_⟩
    cases h with
    | _ => cases hrep <;> exact ⟨hid, hworker, hscope⟩

end Moves

/-- What holds of every state the system reaches. -/
structure Sound (w : World) : Prop where
  cases : ∀ id, Good w.clock (w.db.caseFile id)
  queues : ∀ j ∈ w.db.jobs.rows, ∃ q ∈ w.db.queues.rows, q.name = j.queue
  bindings : ∀ a ∈ w.db.attempts.rows, ∃ s ∈ w.db.sessions.rows,
    s.id = a.workerSessionID ∧ s.workerID = a.workerID ∧ s.scope = a.scope
  registered : ∀ s ∈ w.db.sessions.rows, s.registeredAt ≤ w.clock
  workers : ∀ s ∈ w.db.sessions.rows, ∃ x ∈ w.db.workers.rows,
    x.id = s.workerID ∧ x.scope = s.scope

section Runs

variable {w w' : World} {l : Label}

theorem Initial.sound (h : Initial w) : Sound w where
  cases id := by
    simp [Good, DB.caseFile, h.jobs, h.attempts, h.leases, h.dlqEntries, h.results]
  queues := by simp [h.jobs]
  bindings := by simp [h.attempts]
  registered := h.registered
  workers := h.workers

/-- What time does not undo and every move keeps of its own case file, every step
keeps of all of them. -/
theorem Step.casewise {P : Int → CaseFile → Prop} (hs : Step w l w')
    (hmono : ∀ {t t' : Int} {cf : CaseFile}, P t cf → t ≤ t' → P t' cf)
    (hmove : ∀ {env : Env} {db db' : DB} {id : UUID} {writes : Writes} {now : Int},
      Lawful env db id writes → writes.Applied db db' → Good now (db.caseFile id) →
      now ≤ env.clock.s₀ → P now (db.caseFile id) → P env.clock.s₂ (db'.caseFile id))
    (hgood : ∀ id, Good w.clock (w.db.caseFile id)) (hP : ∀ id, P w.clock (w.db.caseFile id))
    (id : UUID) : P w'.clock (w'.db.caseFile id) := by
  have hclock := hs.clock_le
  have hs₂ : l.request.env.clock.s₂ = w'.clock := by cases hs <;> rfl
  cases hs.effect with
  | unchanged same =>
    rw [same]
    exact hmono (hP id) hclock
  | sessions only kept workers owned =>
    rw [only.caseFile id]
    exact hmono (hP id) hclock
  | move id' writes lawful applied =>
    by_cases hid : id = id'
    · rw [hid, ← hs₂]
      exact hmove lawful applied (hgood id') hs.clock_le_sample (hP id')
    · rw [caseFile_applied_of_ne applied lawful.about hid]
      exact hmono (hP id) hclock

/-- **Every step keeps the invariant.** -/
theorem Step.sound (hs : Step w l w') (h : Sound w) : Sound w' := by
  have hclock := hs.clock_le
  have hs₂ : l.request.env.clock.s₂ = w'.clock := by cases hs <;> rfl
  have hcases : ∀ id, Good w'.clock (w'.db.caseFile id) :=
    hs.casewise Good.mono (fun lawful applied hgood hle _ => lawful.good applied hgood hle)
      h.cases h.cases
  cases hs.effect with
  | unchanged same =>
    refine ⟨hcases, same ▸ h.queues, same ▸ h.bindings, ?_, same ▸ h.workers⟩
    rw [same]
    exact fun s hs => (h.registered s hs).trans hclock
  | sessions only kept workers owned =>
    refine ⟨hcases, ?_, ?_, ?_, ?_⟩
    · rw [only.jobs, only.queues]
      exact h.queues
    · intro a ha
      rw [only.attempts] at ha
      obtain ⟨s, hs, hid, hworker, hscope⟩ := h.bindings a ha
      obtain ⟨s', hs', hout⟩ := kept s hs
      exact ⟨s', hs', hout.id.trans hid, hout.worker.trans hworker, hout.scope.trans hscope⟩
    · intro s' hs'
      rcases owned s' hs' with ⟨s, hs, hreg, -⟩ | ⟨hreg, -⟩
      · rw [hreg]
        exact (h.registered s hs).trans hclock
      · exact hreg.trans hs₂.le
    · intro s' hs'
      rcases owned s' hs' with ⟨s, hs, -, hworker, hscope⟩ | ⟨-, hworker⟩
      · obtain ⟨x, hx, hxid, hxscope⟩ := h.workers s hs
        obtain ⟨y, hy, hyid, hyscope⟩ := workers x hx
        exact ⟨y, hy, by rw [hyid, hxid, hworker], by rw [hyscope, hxscope, hscope]⟩
      · exact hworker
  | move id writes lawful applied =>
    refine ⟨hcases, ?_, ?_, ?_, ?_⟩
    · rw [applied.jobs, applied.queues]
      exact lawful.queue_known h.queues
    · rw [applied.attempts, applied.sessions]
      exact lawful.session_known h.bindings
    · rw [applied.sessions]
      exact fun s hs => (h.registered s hs).trans hclock
    · rw [applied.sessions, applied.workers]
      exact h.workers

/-- What holds of the case files at the start, and every move keeps, holds of them
all along a run. -/
theorem Sound.casewise {P : Int → CaseFile → Prop} {trace : List Label} (h : Sound w)
    (hrun : Execution w trace w')
    (hmono : ∀ {t t' : Int} {cf : CaseFile}, P t cf → t ≤ t' → P t' cf)
    (hmove : ∀ {env : Env} {db db' : DB} {id : UUID} {writes : Writes} {now : Int},
      Lawful env db id writes → writes.Applied db db' → Good now (db.caseFile id) →
      now ≤ env.clock.s₀ → P now (db.caseFile id) → P env.clock.s₂ (db'.caseFile id))
    (hP : ∀ id, P w.clock (w.db.caseFile id)) : ∀ id, P w'.clock (w'.db.caseFile id) := by
  have hinv := hrun.invariant (P := fun w => Sound w ∧ ∀ id, P w.clock (w.db.caseFile id))
    (fun hI hstep => ⟨hstep.sound hI.1, hstep.casewise hmono hmove hI.1.cases hI.2⟩) ⟨h, hP⟩
  exact hinv.2

/-- **Every reachable state satisfies the invariant.** -/
theorem Reachable.sound (h : Reachable w) : Sound w := by
  obtain ⟨w₀, trace, hinit, hrun⟩ := h
  exact hrun.invariant (fun hsound hstep => hstep.sound hsound) hinit.sound

end Runs

end TaskForge
