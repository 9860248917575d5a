/-
Capacity (`Claim`, `Register`, `Heartbeat`).

No column says how much of a queue or of a worker is in use: both are counted from
the active leases each time a claim is decided. The count of a queue is compared
with the queue's bound, and the count of a worker, over all its sessions, with the
bound of the session that claims. The first part of this file is that the two
counts stay bounded along every run, although sessions come and go: only a claim
raises a count, and it looked at it first; a session that was replaced keeps its
row, and with it the limit its leases were taken under.

The second part is what a heartbeat needs this for. Its list of directives is cut
off at 256 entries; since a worker never holds more active leases than that, the
list is complete.
-/
import Mathlib.Data.List.MinMax
import Mathlib.Data.List.Perm.Subperm
import TaskForge.Permanence
import TaskForge.Admission

open Relational Fallible

namespace TaskForge

/-! ## Active leases -/

/-- The largest `concurrency_limit` among a worker's sessions. -/
def largestLimit (db : DB) (workerID : UUID) : Int :=
  ((db.sessions.rows.filter fun s => s.workerID == workerID).map
    WorkerSession.concurrencyLimit).foldr max 0

/-- The capacity rules. -/
structure WithinCapacity (db : DB) : Prop where
  queues : ∀ q ∈ db.queues.rows, (activeForQueue db q.name : Int) ≤ q.maxConcurrency
  workers : ∀ id, (activeForWorker db id : Int) ≤ largestLimit db id
  limits : ∀ id, largestLimit db id ≤ 256

section Counts

variable {env : Env} {db : DB} {id : UUID} {w : Writes}

/-- The active leases of a holder. -/
def holding (p : Lease → Bool) (leases : List Lease) : ℕ :=
  leases.countP fun l => p l && l.status == .active

theorem holding_concat (p : Lease → Bool) (leases : List Lease) {l : Lease}
    (hl : l.status = .active) :
    holding p (leases ++ [l]) = holding p leases + if p l then 1 else 0 := by
  unfold holding
  rw [List.countP_append, List.countP_singleton, hl]
  simp

/-- **A move other than a claim takes no capacity.** A lease is rewritten while it
is active, and keeps its holder. -/
theorem Lawful.holding_le (h : Lawful env db id w) {p : Lease → Bool}
    (hp : ∀ {l l' : Lease}, l'.binding = l.binding → p l' = p l)
    (hkeep : ∀ l, w.lease ≠ .insert l) :
    holding p (w.lease.apply db.leases.rows) ≤ holding p db.leases.rows := by
  cases hw : w.lease with
  | keep => exact le_rfl
  | insert l => exact absurd hw (hkeep l)
  | replace old new =>
    obtain ⟨hactive, -, hbinding⟩ := h.lease_replaced hw
    refine countP_replaceRow_le _ (fun hnew => ?_) _
    rw [Bool.and_eq_true] at hnew ⊢
    refine ⟨?_, ?_⟩
    · rw [← hp hbinding]
      exact hnew.1
    · rw [hactive]
      rfl

/-- Only a claim issues a lease. -/
theorem Lawful.lease_inserted (h : Lawful env db id w) {l : Lease} (hw : w.lease = .insert l) :
    ∃ scope req s j, ClaimReady env scope req db s j ∧ l = claimedLease env scope req j ∧
      l.queue = req.queue := by
  cases h with
  | claim scope req s j job ready =>
    cases hw
    obtain ⟨⟨-, hqueue, -⟩, -⟩ := isEligible_eq_true.mp ready.eligible
    exact ⟨scope, req, s, j, ready, rfl, hqueue⟩
  | _ => cases hw

/-- A bound that a claim respects for its own holder is kept by every move. -/
theorem Lawful.holding_bounded (h : Lawful env db id w) {p : Lease → Bool} {bound : Int}
    (hp : ∀ {l l' : Lease}, l'.binding = l.binding → p l' = p l)
    (hbound : (holding p db.leases.rows : Int) ≤ bound)
    (hroom : ∀ l, w.lease = .insert l → p l = true → (holding p db.leases.rows : Int) < bound) :
    (holding p (w.lease.apply db.leases.rows) : Int) ≤ bound := by
  by_cases hins : ∃ l, w.lease = .insert l
  · obtain ⟨l, hl⟩ := hins
    obtain ⟨scope, req, s, j, -, rfl, -⟩ := h.lease_inserted hl
    have hcount : holding p (w.lease.apply db.leases.rows)
        = holding p db.leases.rows + if p (claimedLease env scope req j) then 1 else 0 := by
      rw [hl]
      exact holding_concat p db.leases.rows rfl
    rw [hcount]
    by_cases htaken : p (claimedLease env scope req j) = true
    · have := hroom _ hl htaken
      rw [if_pos htaken]
      omega
    · rw [if_neg htaken]
      omega
  · have hle := h.holding_le hp (fun l hl => hins ⟨l, hl⟩)
    omega

end Counts

/-! ## Limits -/

section Limits

variable {env : Env} {db db' : DB}

theorem foldr_max_le {b : Int} {xs : List Int} (hb : 0 ≤ b) (h : ∀ x ∈ xs, x ≤ b) :
    xs.foldr max 0 ≤ b := by
  induction xs with
  | nil => exact hb
  | cons y ys ih =>
    rw [List.foldr_cons]
    refine max_le (h y List.mem_cons_self) (ih fun x hx => ?_)
    exact h x (List.mem_cons_of_mem y hx)

theorem le_largestLimit {s : WorkerSession} (hs : s ∈ db.sessions.rows) :
    s.concurrencyLimit ≤ largestLimit db s.workerID := by
  have hmem : s ∈ db.sessions.rows.filter fun t => t.workerID == s.workerID :=
    List.mem_filter.mpr ⟨hs, beq_self_eq_true s.workerID⟩
  exact List.le_max_of_le' 0 (List.mem_map_of_mem hmem) le_rfl

theorem largestLimit_le {b : Int} {id : UUID} (hb : 0 ≤ b)
    (h : ∀ s ∈ db.sessions.rows, s.workerID = id → s.concurrencyLimit ≤ b) :
    largestLimit db id ≤ b := by
  refine foldr_max_le hb fun x hx => ?_
  obtain ⟨s, hs, rfl⟩ := List.mem_map.mp hx
  rw [List.mem_filter, beq_iff_eq] at hs
  exact h s hs.1 hs.2

theorem largestLimit_nonneg (db : DB) (id : UUID) : 0 ≤ largestLimit db id := by
  unfold largestLimit
  generalize List.map WorkerSession.concurrencyLimit _ = limits
  induction limits with
  | nil => exact le_rfl
  | cons x xs ih => exact ih.trans (le_max_right x _)

/-- The schema bounds every limit. -/
theorem largestLimit_le_max (db : DB) (id : UUID) : largestLimit db id ≤ 256 := by
  refine largestLimit_le (by decide) fun s hs _ => ?_
  have hchecked := (db.session_checked hs).concurrencyLimit
  simp only [between, Bool.and_eq_true, decide_eq_true_eq] at hchecked
  exact hchecked.2

/-- A session row that was rewritten keeps its worker and its limit. -/
theorem SessionMoved.limit_kept {s s' : WorkerSession} (h : SessionMoved db db' s s')
    (hworker : s'.workerID = s.workerID) (hlimit : s'.concurrencyLimit = s.concurrencyLimit)
    {x : WorkerSession} (hx : x ∈ db.sessions.rows) :
    ∃ x' ∈ db'.sessions.rows, x'.workerID = x.workerID ∧
      x'.concurrencyLimit = x.concurrencyLimit := by
  by_cases hxs : x = s
  · rw [hxs]
    exact ⟨s', h.new_mem, hworker, hlimit⟩
  · refine ⟨x, ?_, rfl, rfl⟩
    rw [h.rows, mem_replaceRow]
    exact .inl ⟨hx, hxs⟩

/-- **No session row is lost, and none changes its limit.** -/
theorem Commit.limit_kept {call : Call} (h : Commit env db db' call) {x : WorkerSession}
    (hx : x ∈ db.sessions.rows) :
    ∃ x' ∈ db'.sessions.rows, x'.workerID = x.workerID ∧
      x'.concurrencyLimit = x.concurrencyLimit := by
  cases h with
  | unchanged call same => exact ⟨x, same ▸ hx, rfl, rfl⟩
  | registered scope registration reg wid valid only workers sessions =>
    cases sessions with
    | replayed s mem id worker healthy same => exact ⟨x, same ▸ hx, rfl, rfl⟩
    | fresh rows =>
      -- The update fences the worker's current session and leaves the others.
      refine ⟨if x.workerID == wid && isCurrentSessionStatus x.status
        then fencedSession env.clock.s₁ x else x, ?_, ?_⟩
      · rw [rows]
        exact List.mem_append_left _ (List.mem_map_of_mem hx)
      · split <;> exact ⟨rfl, rfl⟩
  | beat scope req s session scope_eq healthy moved | staled s staleAfter stale moved =>
    exact moved.limit_kept rfl rfl hx
  | wrote call id w performs applied => exact ⟨x, applied.sessions ▸ hx, rfl, rfl⟩

theorem Commit.largestLimit_le {call : Call} (h : Commit env db db' call) (id : UUID) :
    largestLimit db id ≤ largestLimit db' id := by
  refine TaskForge.largestLimit_le (largestLimit_nonneg db' id) fun s hs hid => ?_
  obtain ⟨s', hs', hworker, hlimit⟩ := h.limit_kept hs
  rw [← hlimit, ← hid, ← hworker]
  exact le_largestLimit hs'

end Limits

/-! ## Every state -/

section Runs

variable {w w' : World} {l : Label}

/-- **Every step keeps the capacity rules.** -/
theorem Step.withinCapacity (hs : Step w l w') (h : WithinCapacity w.db) :
    WithinCapacity w'.db := by
  have hlimit := hs.commit.largestLimit_le
  cases hs.effect with
  | unchanged same => rw [same]; exact h
  | sessions only kept workers owned =>
    refine ⟨?_, ?_, largestLimit_le_max w'.db⟩
    · intro q hq
      rw [only.queues] at hq
      unfold activeForQueue
      rw [only.leases]
      exact h.queues q hq
    · intro id
      unfold activeForWorker
      rw [only.leases]
      exact (h.workers id).trans (hlimit id)
  | move id writes lawful applied =>
    refine ⟨?_, ?_, largestLimit_le_max w'.db⟩
    · intro q hq
      rw [applied.queues] at hq
      show (holding (fun l => l.queue == q.name) w'.db.leases.rows : Int) ≤ q.maxConcurrency
      rw [applied.leases]
      refine lawful.holding_bounded ?_ (h.queues q hq) ?_
      · intro l l' hbinding
        rw [(Prod.mk.inj (Prod.mk.inj (Prod.mk.inj (Prod.mk.inj hbinding).2).2).2).1]
      · -- The claim found the queue by its name and saw room in it.
        intro l hl hqueue
        obtain ⟨scope, req, s, j, ready, -, hlqueue⟩ := lawful.lease_inserted hl
        obtain ⟨q', hq', hname, -, hroom⟩ := ready.queue
        rw [beq_iff_eq, hlqueue] at hqueue
        have hqq : q' = q := w.db.queue_eq_of_name hq' hq (hname.trans hqueue)
        rw [hqueue, hqq] at hroom
        exact hroom
    · intro wid
      show (holding (fun l => l.workerID == wid) w'.db.leases.rows : Int) ≤ largestLimit w'.db wid
      rw [applied.leases]
      refine le_trans ?_ (hlimit wid)
      refine lawful.holding_bounded ?_ (h.workers wid) ?_
      · intro l l' hbinding
        rw [(Prod.mk.inj (Prod.mk.inj (Prod.mk.inj (Prod.mk.inj (Prod.mk.inj hbinding).2).2).2).2).1]
      · -- The claim compared the worker's count with its own session's limit.
        intro l hl hworker
        obtain ⟨scope, req, s, j, ready, rfl, -⟩ := lawful.lease_inserted hl
        rw [beq_iff_eq] at hworker
        have hlargest := le_largestLimit ready.session_mem
        have hroom := ready.capacity
        rw [ready.session_worker] at hlargest
        rw [← hworker]
        exact hroom.trans_le hlargest

theorem Reachable.withinCapacity (h : Reachable w) : WithinCapacity w.db := by
  obtain ⟨w₀, trace, hinit, hrun⟩ := h
  refine hrun.invariant (P := fun w => WithinCapacity w.db) (fun h hs => hs.withinCapacity h) ?_
  refine ⟨?_, ?_, largestLimit_le_max w₀.db⟩
  · intro q hq
    have hchecked := w₀.db.queues.checked q hq
    simp only [queues, Bool.and_eq_true, decide_eq_true_eq] at hchecked
    have hnone : activeForQueue w₀.db q.name = 0 := by
      simp [activeForQueue, Table.count, hinit.leases]
    omega
  · intro id
    have hnone : activeForWorker w₀.db id = 0 := by
      simp [activeForWorker, Table.count, hinit.leases]
    have := largestLimit_nonneg w₀.db id
    omega

end Runs

/-! ## Directives -/

/-- An attempt of the session that its worker must be told to cancel. -/
structure Cancelable (db : DB) (sessionID : UUID) (j : Job) (a : JobAttempt) (l : Lease) :
    Prop where
  job_mem : j ∈ db.jobs.rows
  attempt_mem : a ∈ db.attempts.rows
  lease_mem : l ∈ db.leases.rows
  session : a.workerSessionID = sessionID
  attempt_job : a.jobID = j.id
  lease_attempt : l.attemptID = a.id
  requested : j.status = .cancelRequested
  active : l.status = .active

/-- A heartbeat's list of directives: every attempt to cancel, each once, and
nothing else. -/
structure Complete (db : DB) (sessionID : UUID) (directives : List CancellationDirective) :
    Prop where
  sound : ∀ d ∈ directives, ∃ j a l, Cancelable db sessionID j a l ∧ d.jobID = j.id ∧
    d.attemptID = a.id ∧ d.leaseID = l.id ∧ j.cancelRequestedAt = some d.cancelRequestedAt
  complete : ∀ j a l, Cancelable db sessionID j a l → ∃ d ∈ directives, d.attemptID = a.id
  once : (directives.map CancellationDirective.attemptID).Nodup

/-- The rows `cancellationDirectives` selects, before they are ordered and cut
off. -/
def directivesOf (db : DB) (sessionID : UUID) : List CancellationDirective :=
  db.attempts.rows.filterMap fun a => do
    guard (a.workerSessionID = sessionID ∧ isExecutingAttemptStatus a.status)
    let j ← db.jobs.rows.find? fun j => j.id == a.jobID
    let l ← db.leases.rows.find? fun l => l.attemptID == a.id
    guard (j.status = .cancelRequested ∧ l.status = .active)
    let requested ← j.cancelRequestedAt
    some ⟨a.jobID, a.id, l.id, requested⟩

section Directives

variable {w : World} {sessionID : UUID} {d : CancellationDirective}

theorem cancellationDirectives_eq (db : DB) (sessionID : UUID) (limit : ℕ) :
    cancellationDirectives db sessionID limit
      = ((directivesOf db sessionID).mergeSort directiveBefore).take limit := rfl

theorem mem_directivesOf {db : DB} :
    d ∈ directivesOf db sessionID ↔
      ∃ j a l, Cancelable db sessionID j a l ∧ isExecutingAttemptStatus a.status = true ∧
        d.jobID = j.id ∧ d.attemptID = a.id ∧ d.leaseID = l.id ∧
        j.cancelRequestedAt = some d.cancelRequestedAt := by
  unfold directivesOf
  simp only [List.mem_filterMap, Option.bind_eq_bind, Option.bind_eq_some_iff,
    Option.guard_eq_some', exists_const, Option.some.injEq]
  constructor
  · rintro ⟨a, ha, ⟨hsession, hex⟩, j, hj, l, hl, ⟨hrequested, hactive⟩, t, ht, rfl⟩
    obtain ⟨hjm, hjid⟩ := found_of_find? hj
    obtain ⟨hlm, hlid⟩ := found_of_find? hl
    rw [beq_iff_eq] at hjid hlid
    exact ⟨j, a, l, ⟨hjm, ha, hlm, hsession,
      hjid.symm, hlid, hrequested, hactive⟩, hex, hjid.symm, rfl, rfl, ht⟩
  · rintro ⟨j, a, l, hc, hex, hjob, hattempt, hlease, ht⟩
    -- Both look-ups are by a unique column, so they find these very rows.
    have hj : db.jobs.rows.find? (fun k => k.id == a.jobID) = some j := by
      refine find?_eq_some_of_unique hc.job_mem (beq_iff_eq.mpr hc.attempt_job.symm) ?_
      intro k hk hkid
      exact db.job_eq_of_id hk hc.job_mem ((beq_iff_eq.mp hkid).trans hc.attempt_job)
    have hl : db.leases.rows.find? (fun m => m.attemptID == a.id) = some l := by
      refine find?_eq_some_of_unique hc.lease_mem (beq_iff_eq.mpr hc.lease_attempt) ?_
      intro m hm hmid
      exact db.lease_eq_of_attempt hm hc.lease_mem
        ((beq_iff_eq.mp hmid).trans hc.lease_attempt.symm)
    refine ⟨a, hc.attempt_mem, ⟨hc.session, hex⟩, j, hj, l, hl, ⟨hc.requested, hc.active⟩, _, ht, ?_⟩
    rw [hc.attempt_job, ← hjob, ← hattempt, ← hlease]

/-- No attempt is listed twice: attempts are told apart by their ids. -/
theorem directivesOf_once (db : DB) (sessionID : UUID) :
    ((directivesOf db sessionID).map CancellationDirective.attemptID).Nodup := by
  have hids : db.attempts.rows.Pairwise fun a b => a.id ≠ b.id := by
    refine db.attempts.unique.imp_of_mem fun ha hb hclash hid => ?_
    rw [db.attempt_eq_of_id ha hb hid, jobAttempts.clash_refl] at hclash
    cases hclash
  rw [List.Nodup, List.pairwise_map]
  refine hids.filterMap _ fun a b hne x hx y hy => ?_
  simp only [Option.bind_eq_bind, Option.bind_eq_some_iff, Option.guard_eq_some', exists_const,
    Option.some.injEq] at hx hy
  obtain ⟨-, j, -, l, -, -, t, -, rfl⟩ := hx
  obtain ⟨-, j', -, l', -, -, t', -, rfl⟩ := hy
  exact hne

/-- Every directive is about an active lease of the session's worker. -/
theorem Sound.directives_length_le (h : Sound w) {s : WorkerSession}
    (hs : s ∈ w.db.sessions.rows) :
    (directivesOf w.db s.id).length ≤ activeForWorker w.db s.workerID := by
  have hsub : (directivesOf w.db s.id).map CancellationDirective.attemptID ⊆
      (w.db.leases.rows.filter fun l => l.workerID == s.workerID && l.status == .active).map
        Lease.attemptID := by
    intro x hx
    obtain ⟨d, hd, rfl⟩ := List.mem_map.mp hx
    obtain ⟨j, a, l, hc, -, -, hattempt, -, -⟩ := mem_directivesOf.mp hd
    obtain ⟨t, ht, htid, htworker, -⟩ := h.bindings a hc.attempt_mem
    have hts : t = s := w.db.session_eq_of_id ht hs (htid.trans hc.session)
    have hworker : l.workerID = s.workerID := by
      obtain ⟨k, -, b, hb, hbound⟩ := h.run_of_lease hc.lease_mem
      have hba : b = a := w.db.attempt_eq_of_id hb hc.attempt_mem
        (hbound.lease_attempt.symm.trans hc.lease_attempt)
      rw [hbound.worker, hba, ← htworker, hts]
    rw [hattempt, ← hc.lease_attempt]
    refine List.mem_map_of_mem (List.mem_filter.mpr ⟨hc.lease_mem, ?_⟩)
    rw [hworker, hc.active]
    simp
  have hle := ((directivesOf_once w.db s.id).subperm hsub).length_le
  rw [List.length_map, List.length_map, ← List.countP_eq_length_filter] at hle
  exact hle

/-- Uncut, the list is complete. -/
theorem Sound.directivesOf_complete (h : Sound w) {j : Job} {a : JobAttempt} {l : Lease}
    (hc : Cancelable w.db sessionID j a l) :
    ∃ d ∈ directivesOf w.db sessionID, d.attemptID = a.id := by
  obtain ⟨l', hl', hattempt, hunique, hiff⟩ := h.lease_of_attempt hc.attempt_mem
  have hex : isExecutingAttemptStatus a.status = true :=
    hiff.mp (hunique l hc.lease_mem hc.lease_attempt ▸ hc.active)
  have hstamped : j.cancelRequestedAt.isSome = true := by
    rw [(w.db.job_checked hc.job_mem).stamp, hc.requested]
    rfl
  obtain ⟨t, ht⟩ := Option.isSome_iff_exists.mp hstamped
  exact ⟨⟨j.id, a.id, l.id, t⟩, mem_directivesOf.mpr ⟨j, a, l, hc, hex, rfl, rfl, rfl, ht⟩, rfl⟩

theorem heartbeat_answer {env : Env} {scope : String} {req : HeartbeatRequest}
    {r : HeartbeatResult} {db db' : DB} (h : heartbeat env scope req db = .ok (r, db')) :
    (∃ s ∈ db.sessions.rows, s.id = req.sessionID) ∧
      r.cancellations = cancellationDirectives db req.sessionID maxCancellationDirectives := by
  obtain ⟨s, hid, -, -, hmoved⟩ := heartbeat_eq_ok h
  simp only [heartbeat, bind_eq_ok, pure_eq_ok, Prod.mk.injEq] at h
  obtain ⟨-, -, -, -, -, -, -, -, rfl, -⟩ := h
  exact ⟨⟨s, hmoved.mem, hid⟩, rfl⟩

end Directives

/-- **Capacity.** In every state, the active leases of a queue are at most its
`max_concurrency`, those of a worker at most the largest limit among its
sessions, which is at most 256, and so every heartbeat lists all the attempts its
worker must cancel. -/
theorem capacity_respected {w : World} (h : Reachable w) :
    WithinCapacity w.db ∧ ∀ env scope req r db', heartbeat env scope req w.db = .ok (r, db') →
      Complete w.db req.sessionID r.cancellations := by
  have hcap := h.withinCapacity
  refine ⟨hcap, fun env scope req r db' hbeat => ?_⟩
  obtain ⟨⟨s, hs, hid⟩, hanswer⟩ := heartbeat_answer hbeat
  -- The cut-off is at or above the number of rows, so it cuts nothing.
  have hlength : (directivesOf w.db req.sessionID).length ≤ maxCancellationDirectives := by
    have hle := h.sound.directives_length_le hs
    have hworker := hcap.workers s.workerID
    have hmax := hcap.limits s.workerID
    rw [hid] at hle
    unfold maxCancellationDirectives
    omega
  have hall : r.cancellations = (directivesOf w.db req.sessionID).mergeSort directiveBefore := by
    rw [hanswer, cancellationDirectives_eq, List.take_of_length_le]
    rw [List.length_mergeSort]
    exact hlength
  have hperm := List.mergeSort_perm (directivesOf w.db req.sessionID) directiveBefore
  rw [hall]
  refine ⟨?_, ?_, ?_⟩
  · intro d hd
    obtain ⟨j, a, l, hc, -, hrest⟩ := mem_directivesOf.mp (hperm.mem_iff.mp hd)
    exact ⟨j, a, l, hc, hrest⟩
  · intro j a l hc
    obtain ⟨d, hd, hda⟩ := h.sound.directivesOf_complete hc
    exact ⟨d, hperm.mem_iff.mpr hd, hda⟩
  · exact (hperm.map _).nodup_iff.mpr (directivesOf_once w.db req.sessionID)

/-- The sample worker, told by its heartbeat to cancel the sample job. -/
theorem capacity_respected_sample :
    activeForQueue (quiet.exec (sampleStart ++ [sampleCancel])).2.db "default" = 1 ∧
      WithinCapacity (quiet.exec (sampleStart ++ [sampleCancel])).2.db ∧
      ∃ r db', heartbeat (envAt 6 0 0) "tenant" ⟨1, 7⟩
          (quiet.exec (sampleStart ++ [sampleCancel])).2.db = .ok (r, db') ∧
        Complete (quiet.exec (sampleStart ++ [sampleCancel])).2.db 7 r.cancellations := by
  have hreach : Reachable (quiet.exec (sampleStart ++ [sampleCancel])).2 :=
    quiet_reachable (by decide)
  obtain ⟨hcap, hbeat⟩ := capacity_respected hreach
  obtain ⟨hactive, hok⟩ :
      activeForQueue (quiet.exec (sampleStart ++ [sampleCancel])).2.db "default" = 1 ∧
      (heartbeat (envAt 6 0 0) "tenant" ⟨1, 7⟩
        (quiet.exec (sampleStart ++ [sampleCancel])).2.db).isOk = true := by decide +kernel
  refine ⟨hactive, hcap, ?_⟩
  cases hr : heartbeat (envAt 6 0 0) "tenant" ⟨1, 7⟩
      (quiet.exec (sampleStart ++ [sampleCancel])).2.db with
  | ok r => exact ⟨r.1, r.2, rfl, hbeat _ _ _ _ _ hr⟩
  | error f =>
    rw [hr] at hok
    cases hok

end TaskForge
