/-
Notification generations.

A queued job is advertised by events, and its generation says which entry to
`QUEUED` an event speaks of. Five transactions enter a job into `QUEUED` or
advertise it again, and the publisher takes events out of `PENDING`; everything
said here about the two tables together rests on one inversion of the moves
(`Lawful.notice`): a move enters its job and inserts the event of the new
generation, or repeats the event of the current one when none is pending, or
writes no event and leaves generation and stamp alone.
-/
import TaskForge.Outbox
import TaskForge.Recovery

open Relational Fallible

namespace TaskForge

/-! ## What a move advertises -/

/-- The event advertises the job as it stands. -/
structure Advertises (e : OutboxEvent) (j : Job) : Prop where
  eventType : e.eventType = eventWorkAvailable
  payload : e.payload = ⟨j.queue, j.id⟩
  jobID : e.jobID = some j.id
  generation : e.notificationGeneration = some j.notificationGeneration
  pending : e.status = .pending

/-- What the writes of a move say about the advertisement of its job. -/
inductive Notice (env : Env) (db : DB) (id : UUID) (w : Writes) : Prop where
  /-- The job's row is not written. -/
  | kept (job : w.job = .keep) (events : w.events = [])
  /-- The job is born, to be queued later. -/
  | delayed (j : Job) (unborn : (db.caseFile id).job = none) (write : w.job = .insert j)
      (events : w.events = []) (status : j.status ≠ .queued)
      (generation : j.notificationGeneration = 0) (stamp : j.lastNotificationAt = none)
  /-- The job is born queued. -/
  | born (j : Job) (e : OutboxEvent) (unborn : (db.caseFile id).job = none)
      (write : w.job = .insert j) (events : w.events = [e]) (status : j.status = .queued)
      (generation : j.notificationGeneration = 1)
      (stamp : j.lastNotificationAt = some env.clock.s₀) (advertises : Advertises e j)
  /-- The job moves, and not to `QUEUED`. -/
  | moved (j j' : Job) (job : (db.caseFile id).job = some j) (write : w.job = .replace j j')
      (events : w.events = []) (status : j'.status ≠ .queued) (queue : j'.queue = j.queue)
      (generation : j'.notificationGeneration = j.notificationGeneration)
      (stamp : j'.lastNotificationAt = j.lastNotificationAt)
  /-- The job enters `QUEUED`. -/
  | entered (j j' : Job) (e : OutboxEvent) (job : (db.caseFile id).job = some j)
      (write : w.job = .replace j j') (events : w.events = [e]) (before : j.status ≠ .queued)
      (status : j'.status = .queued) (queue : j'.queue = j.queue)
      (generation : j'.notificationGeneration = j.notificationGeneration + 1)
      (stamp : j'.lastNotificationAt = some env.clock.s₀) (advertises : Advertises e j')
  /-- The job stays queued, and is advertised again. -/
  | repeated (j j' : Job) (e : OutboxEvent) (job : (db.caseFile id).job = some j)
      (write : w.job = .replace j j') (events : w.events = [e]) (before : j.status = .queued)
      (status : j'.status = .queued) (queue : j'.queue = j.queue)
      (generation : j'.notificationGeneration = j.notificationGeneration)
      (stamp : j'.lastNotificationAt = some env.clock.s₀) (advertises : Advertises e j')
      (silent : hasPendingWorkAvailable db id j.notificationGeneration = false)

section Notice

variable {env : Env} {db : DB} {id : UUID} {w : Writes} {now : Int} {j : Job} {a : JobAttempt}
  {l : Lease}

/-- The event of a transaction advertises the row it is written with. -/
theorem advertises_workAvailableEvent (eid : UUID) (start : Int) (trace : Option TraceContext)
    {jobID : UUID} {queue : String} {generation : ℕ} (hid : j.id = jobID) (hqueue : j.queue = queue)
    (hgen : j.notificationGeneration = generation) :
    Advertises (workAvailableEvent eid start jobID queue generation trace) j := by
  refine ⟨rfl, ?_, ?_, ?_, rfl⟩
  · rw [hid, hqueue]
    rfl
  · rw [hid]
    rfl
  · rw [hgen]
    rfl

/-- A submission is queued, and advertised, unless it is delayed. -/
theorem submit_notice {scope key : String} {req : NormalizedRequest} {trace : TraceContext}
    (unborn : (db.caseFile id).job = none) :
    Notice env db id (submitWrites env scope key req trace) := by
  by_cases hd : isDelayed env.clock.s₀ req = true
  · refine .delayed (submittedJob env scope req) unborn rfl ?_ ?_ ?_ ?_
    all_goals simp [submitWrites, submittedJob, hd]
  · refine .born (submittedJob env scope req) _ unborn rfl (if_neg hd) ?_ ?_ ?_
      (advertises_workAvailableEvent _ _ _ rfl rfl ?_)
    all_goals simp [submittedJob, hd]

/-- An attempt that ends without success queues its job at once or not at all. -/
theorem finalize_notice {scope : String} {o : AttemptOutcome} {d : Decision}
    (job : (db.caseFile id).job = some j) (hstatus : j.status ≠ .queued)
    (hqueue : l.queue = j.queue) :
    Notice env db id (finalizeWrites env scope o d env.clock.s₀ j a l) := by
  by_cases hr : d.retry = true
  · by_cases hm : 0 < storedMillis d
    · have hj : finalizedJob d env.clock.s₀ j
          = movedJob .retryWait (storedRetryAt d env.clock.s₀) env.clock.s₀ j := by
        simp [finalizedJob, hr, hm]
      refine .moved j _ job rfl ?_ ?_ ?_ ?_ ?_
      · simp [finalizeWrites, hm]
      all_goals rw [hj]
      · exact JobStatus.noConfusion
      all_goals rfl
    · have hj : finalizedJob d env.clock.s₀ j = requeuedJob env.clock.s₀ j := by
        simp [finalizedJob, hr, hm]
      refine .entered j _ _ job rfl (if_pos ⟨hr, hm⟩) hstatus ?_ ?_ ?_ ?_
        (advertises_workAvailableEvent _ _ _ ?_ ?_ ?_)
      all_goals rw [hj]
      all_goals first | rfl | exact hqueue.symm
  · have hj : finalizedJob d env.clock.s₀ j
        = movedJob .deadLettered zeroTime env.clock.s₀ j := by
      simp [finalizedJob, hr]
    refine .moved j _ job rfl ?_ ?_ ?_ ?_ ?_
    · simp [finalizeWrites, hr]
    all_goals rw [hj]
    · exact JobStatus.noConfusion
    all_goals rfl

/-- **What each move advertises.** -/
theorem Lawful.notice (h : Lawful env db id w) (hgood : Good now (db.caseFile id)) :
    Notice env db id w := by
  cases h with
  | submit scope key req trace unborn new queue => exact submit_notice unborn
  | replay scope key original unborn new ready =>
    exact .born _ _ unborn rfl rfl rfl rfl rfl (advertises_workAvailableEvent _ _ _ rfl rfl rfl)
  | cancel j target job cancelable =>
    refine .moved j _ job rfl rfl ?_ rfl rfl rfl
    -- A cancellation leads to `CANCELED` or to `CANCEL_REQUESTED`.
    rintro hq
    have htarget : target = .queued := hq
    rw [htarget] at cancelable
    cases hs : j.status <;> rw [hs] at cancelable <;> cases cancelable
  | promote j job promotable =>
    refine .entered j _ _ job rfl rfl ?_ rfl rfl rfl rfl
      (advertises_workAvailableEvent _ _ _ rfl rfl rfl)
    intro hq
    simp [isPromotable, hq] at promotable
  | renotify j after job stranded =>
    have hid := (caseFile_job_eq_some.mp job).2
    simp only [isStranded, Bool.and_eq_true, beq_iff_eq, Bool.not_eq_true'] at stranded
    obtain ⟨⟨⟨hq, -⟩, -⟩, hpending⟩ := stranded
    rw [hid] at hpending
    exact .repeated j _ _ job rfl rfl hq hq rfl rfl rfl
      (advertises_workAvailableEvent _ _ _ rfl rfl rfl) hpending
  | claim scope req s j job ready =>
    exact .moved j _ job rfl rfl JobStatus.noConfusion rfl rfl rfl
  | start s j a l holds live job attempt | succeed scope result s j a l holds scope_eq ready
  | cancellation o ls j a l holds cancels identity =>
    exact .moved j _ holds.job rfl rfl JobStatus.noConfusion rfl rfl rfl
  | renew s j a l req holds ready => exact .kept rfl rfl
  | finalize scope o d j a l holds scope_eq ends decision identity =>
    obtain ⟨past, pastLeases, run⟩ := holds.executing hgood ends.executing
    refine finalize_notice holds.job ?_ run.bound.lease_queue
    intro hq
    rcases run.status.executing with hs | hs <;> rw [hq] at hs <;> cases hs

end Notice

/-! ## One transition, seen from one job -/

/-- What a transition of the service did to the case file of `id`. -/
inductive Turn (w w' : World) (id : UUID) : Prop where
  /-- Its events were moved by a publisher, or nothing happened to it. -/
  | delivered (f : OutboxEvent → OutboxEvent)
      (file : w'.db.caseFile id =
        { w.db.caseFile id with events := (w.db.caseFile id).events.map f })
      (deliver : ∀ e ∈ (w.db.caseFile id).events, Delivered e (f e)) (clock : w.clock ≤ w'.clock)
  /-- The store made a move of it. -/
  | written (env : Env) (writes : Writes) (notice : Notice env w.db id writes)
      (file : w'.db.caseFile id = (w.db.caseFile id).write writes)
      (outbox : w'.db.outbox.rows = w.db.outbox.rows ++ writes.events)
      (after : w.clock ≤ env.clock.s₀) (until_ : env.clock.s₀ ≤ w'.clock)

section Turn

variable {w w' : World} {t : Transition} {id : UUID}

theorem Turn.still (hfile : w'.db.caseFile id = w.db.caseFile id) (hclock : w.clock ≤ w'.clock) :
    Turn w w' id := by
  refine .delivered (fun e => e) ?_ (fun e _ => Delivered.refl e) hclock
  rw [hfile, List.map_id']

theorem Step.turn {l : Label} (hs : Step w l w') (h : Sound w) (id : UUID) : Turn w w' id := by
  have hclock := hs.clock_le
  cases hs.effect with
  | unchanged same => exact .still (by rw [same]) hclock
  | sessions only kept workers owned => exact .still (only.caseFile id) hclock
  | move id' writes lawful applied =>
    by_cases hid : id = id'
    · have hsample : l.request.env.clock.s₀ ≤ w'.clock := by
        have hs₂ : l.request.env.clock.s₂ = w'.clock := by cases hs <;> rfl
        rw [← hs₂]
        exact l.request.env.clock.s₀_le_s₂
      rw [hid]
      exact .written _ writes (lawful.notice (h.cases id')) (caseFile_applied applied lawful.about)
        applied.outbox hs.clock_le_sample hsample
    · exact .still (caseFile_applied_of_ne applied lawful.about hid) hclock

theorem ServiceStep.turn (hs : ServiceStep w t w') (h : Sound w) (id : UUID) : Turn w w' id := by
  obtain ⟨-, -, ⟨l, -, hstep⟩ | ⟨hmoved, hclock⟩⟩ := hs.cases
  · exact hstep.turn h id
  · obtain ⟨f, hfile, hdeliver⟩ := hmoved.caseFile id
    exact .delivered f hfile hdeliver hclock.ge

end Turn

/-! ## The events of a case file -/

/-- The event is pending, and of this generation. -/
def isPendingOf (generation : ℕ) (e : OutboxEvent) : Bool :=
  e.notificationGeneration == some generation && e.status == .pending

/-- What the events of a case file say, as of `now`. -/
structure Heralded (now : Int) (cf : CaseFile) : Prop where
  unborn : cf.job = none → cf.events = []
  bounded : ∀ j, cf.job = some j → ∀ e ∈ cf.events,
    ∃ g, e.notificationGeneration = some g ∧ g ≤ j.notificationGeneration
  stamped : ∀ j last, cf.job = some j → j.lastNotificationAt = some last → last ≤ now
  single : ∀ g, cf.events.countP (isPendingOf g) ≤ 1

section Heralded

variable {now now' : Int} {cf : CaseFile} {writes : Writes} {env : Env} {db : DB} {id : UUID}
  {w w' : World} {j j' : Job} {e : OutboxEvent}

theorem CaseFile.write_job_insert (cf : CaseFile) (hw : writes.job = .insert j) :
    (cf.write writes).job = some j := by
  simp only [CaseFile.write, hw]

theorem CaseFile.write_job_replace (cf : CaseFile) (hw : writes.job = .replace j j') :
    (cf.write writes).job = some j' := by
  simp only [CaseFile.write, hw]

theorem CaseFile.write_job_keep (cf : CaseFile) (hw : writes.job = .keep) :
    (cf.write writes).job = cf.job := by
  simp only [CaseFile.write, hw]

theorem CaseFile.write_events : (cf.write writes).events = cf.events ++ writes.events := rfl

/-- An event of a later generation is the only one of it. -/
theorem Heralded.count_above (h : Heralded now cf) (hj : cf.job = some j) {g : ℕ}
    (hg : j.notificationGeneration < g) : cf.events.countP (isPendingOf g) = 0 := by
  rw [List.countP_eq_zero]
  intro e he hp
  obtain ⟨g', hg', hle⟩ := h.bounded j hj e he
  simp only [isPendingOf, Bool.and_eq_true, beq_iff_eq] at hp
  have heq : g' = g := Option.some.inj (hg'.symm.trans hp.1)
  omega

/-- `HasPendingWorkAvailableTx` looks at the case file. -/
theorem hasPending_eq_false {g : ℕ} (h : hasPendingWorkAvailable db id g = false) :
    (db.caseFile id).events.countP (isPendingOf g) = 0 := by
  rw [List.countP_eq_zero]
  intro e he hp
  obtain ⟨hmem, hjob⟩ := List.mem_filter.mp he
  simp only [isPendingOf, Bool.and_eq_true, beq_iff_eq] at hp
  simp only [hasPendingWorkAvailable, List.any_eq_false, Bool.and_eq_true, beq_iff_eq] at h
  exact h e hmem ⟨⟨of_decide_eq_true hjob, hp.1⟩, hp.2⟩

theorem countP_isPendingOf_append (events : List OutboxEvent) (ha : Advertises e j) (g : ℕ) :
    (events ++ [e]).countP (isPendingOf g)
      = events.countP (isPendingOf g) + if j.notificationGeneration = g then 1 else 0 := by
  rw [List.countP_append, List.countP_singleton]
  simp [isPendingOf, ha.generation, ha.pending]

/-- A publisher keeps what the events say. -/
theorem Heralded.deliver (h : Heralded now cf) {f : OutboxEvent → OutboxEvent}
    (hf : ∀ e ∈ cf.events, Delivered e (f e)) (hle : now ≤ now') :
    Heralded now' { cf with events := cf.events.map f } := by
  refine ⟨?_, ?_, ?_, ?_⟩
  · intro hj
    rw [h.unborn hj]
    rfl
  · intro j hj e he
    obtain ⟨e₀, he₀, rfl⟩ := List.mem_map.mp he
    rw [(hf e₀ he₀).generation]
    exact h.bounded j hj e₀ he₀
  · intro j last hj hlast
    exact (h.stamped j last hj hlast).trans hle
  · intro g
    rw [List.countP_map]
    refine (List.countP_mono_left fun e he hp => ?_).trans (h.single g)
    simp only [Function.comp_apply, isPendingOf, Bool.and_eq_true, beq_iff_eq] at hp ⊢
    rw [(hf e he).generation] at hp
    exact ⟨hp.1, (hf e he).pending hp.2⟩

/-- A move that advertises nothing keeps it, too. -/
theorem Heralded.silent (h : Heralded now cf) (hj' : (cf.write writes).job = some j')
    (hevents : writes.events = [])
    (hbounded : ∀ e ∈ cf.events, ∃ g, e.notificationGeneration = some g ∧
      g ≤ j'.notificationGeneration)
    (hstamped : ∀ last, j'.lastNotificationAt = some last → last ≤ now') :
    Heralded now' (cf.write writes) := by
  have hsame : (cf.write writes).events = cf.events := by
    rw [CaseFile.write_events, hevents, List.append_nil]
  refine ⟨?_, ?_, ?_, ?_⟩
  · intro hnone
    rw [hj'] at hnone
    cases hnone
  · intro k hk
    rw [hj'] at hk
    cases hk
    rw [hsame]
    exact hbounded
  · intro k last hk
    rw [hj'] at hk
    cases hk
    exact hstamped last
  · rw [hsame]
    exact h.single

/-- A move that advertises its job keeps it, if no event was pending for the
generation it advertises. -/
theorem Heralded.advertise (h : Heralded now cf) (hj' : (cf.write writes).job = some j')
    (hevents : writes.events = [e]) (ha : Advertises e j')
    (hbounded : ∀ e ∈ cf.events, ∃ g, e.notificationGeneration = some g ∧
      g ≤ j'.notificationGeneration)
    (hnone : cf.events.countP (isPendingOf j'.notificationGeneration) = 0)
    (hstamped : ∀ last, j'.lastNotificationAt = some last → last ≤ now') :
    Heralded now' (cf.write writes) := by
  have happend : (cf.write writes).events = cf.events ++ [e] := by
    rw [CaseFile.write_events, hevents]
  refine ⟨?_, ?_, ?_, ?_⟩
  · intro hunborn
    rw [hj'] at hunborn
    cases hunborn
  · intro k hk x hx
    rw [hj'] at hk
    cases hk
    rw [happend, List.mem_append, List.mem_singleton] at hx
    rcases hx with hx | rfl
    · exact hbounded x hx
    · exact ⟨_, ha.generation, le_rfl⟩
  · intro k last hk
    rw [hj'] at hk
    cases hk
    exact hstamped last
  · intro g
    have hg := h.single g
    rw [happend, countP_isPendingOf_append _ ha]
    by_cases heq : j'.notificationGeneration = g
    · rw [heq] at hnone
      rw [hnone, if_pos heq]
    · rw [if_neg heq]
      exact hg

/-- **Every move keeps what the events say.** -/
theorem Notice.heralded (hn : Notice env db id writes) (h : Heralded now (db.caseFile id))
    (hle : now ≤ env.clock.s₀) (hle' : env.clock.s₀ ≤ now') :
    Heralded now' ((db.caseFile id).write writes) := by
  have hstamp : ∀ {k : Job}, k.lastNotificationAt = some env.clock.s₀ →
      ∀ last, k.lastNotificationAt = some last → last ≤ now' := by
    intro k hk last hlast
    rw [hk] at hlast
    cases hlast
    exact hle'
  have hnoEvents : (db.caseFile id).job = none → ∀ {g : ℕ} (e), e ∈ (db.caseFile id).events →
      ∃ g', e.notificationGeneration = some g' ∧ g' ≤ g := by
    intro hnone g e he
    rw [h.unborn hnone] at he
    cases he
  cases hn with
  | kept job events =>
    have hjob : ((db.caseFile id).write writes).job = (db.caseFile id).job :=
      CaseFile.write_job_keep _ job
    have hsame : ((db.caseFile id).write writes).events = (db.caseFile id).events := by
      rw [CaseFile.write_events, events, List.append_nil]
    refine ⟨?_, ?_, ?_, ?_⟩
    · rw [hjob, hsame]
      exact h.unborn
    · rw [hjob, hsame]
      exact h.bounded
    · rw [hjob]
      intro j last hj hlast
      exact (h.stamped j last hj hlast).trans (hle.trans hle')
    · rw [hsame]
      exact h.single
  | delayed j unborn write events status generation stamp =>
    refine h.silent (CaseFile.write_job_insert _ write) events (hnoEvents unborn) ?_
    intro last hlast
    rw [stamp] at hlast
    cases hlast
  | born j e unborn write events status generation stamp advertises =>
    refine h.advertise (CaseFile.write_job_insert _ write) events advertises (hnoEvents unborn) ?_
      (hstamp stamp)
    rw [h.unborn unborn]
    rfl
  | moved j j' job write events status queue generation stamp =>
    refine h.silent (CaseFile.write_job_replace _ write) events ?_ ?_
    · rw [generation]
      exact h.bounded j job
    · intro last hlast
      rw [stamp] at hlast
      exact (h.stamped j last job hlast).trans (hle.trans hle')
  | entered j j' e job write events before status queue generation stamp advertises =>
    refine h.advertise (CaseFile.write_job_replace _ write) events advertises ?_ ?_ (hstamp stamp)
    · intro x hx
      obtain ⟨g, hg, hbound⟩ := h.bounded j job x hx
      exact ⟨g, hg, by omega⟩
    · exact h.count_above job (by omega)
  | repeated j j' e job write events before status queue generation stamp advertises silent =>
    refine h.advertise (CaseFile.write_job_replace _ write) events advertises ?_ ?_ (hstamp stamp)
    · rw [generation]
      exact h.bounded j job
    · rw [generation]
      exact hasPending_eq_false silent

theorem Turn.heralded (ht : Turn w w' id) (h : Heralded w.clock (w.db.caseFile id)) :
    Heralded w'.clock (w'.db.caseFile id) := by
  cases ht with
  | delivered f file deliver clock =>
    rw [file]
    exact h.deliver deliver clock
  | written env writes notice file outbox after until_ =>
    rw [file]
    exact notice.heralded h after until_

end Heralded

/-! ## Generations and entries -/

/-- The generation on file: a job that was never born has none. -/
def CaseFile.generation (cf : CaseFile) : ℕ := (cf.job.map Job.notificationGeneration).getD 0

/-- The job is `QUEUED`. -/
def CaseFile.isQueued (cf : CaseFile) : Bool := cf.job.any fun j => j.status == .queued

/-- The transition enters the job into `QUEUED`. -/
def Transition.enters (id : UUID) (t : Transition) : Bool :=
  (t.after.db.caseFile id).isQueued && !(t.before.db.caseFile id).isQueued

/-- The stamp is there again, and no earlier. -/
def NotEarlier (last last' : Option Int) : Prop := ∀ t, last = some t → ∃ t', last' = some t' ∧ t ≤ t'

section Generations

variable {w w' : World} {id : UUID} {cf : CaseFile} {j : Job}

theorem CaseFile.generation_eq (h : cf.job = some j) :
    cf.generation = j.notificationGeneration := by
  rw [CaseFile.generation, h]
  rfl

theorem CaseFile.isQueued_eq (h : cf.job = some j) : cf.isQueued = (j.status == .queued) := by
  rw [CaseFile.isQueued, h]
  rfl

theorem CaseFile.unborn_eq (h : cf.job = none) : cf.generation = 0 ∧ cf.isQueued = false := by
  rw [CaseFile.generation, CaseFile.isQueued, h]
  exact ⟨rfl, rfl⟩

/-- Only an entry raises a generation, by one. -/
theorem Turn.generation (ht : Turn w w' id) :
    (w'.db.caseFile id).generation = (w.db.caseFile id).generation +
      if (w'.db.caseFile id).isQueued && !(w.db.caseFile id).isQueued then 1 else 0 := by
  cases ht with
  | delivered f file deliver clock =>
    rw [file]
    simp [CaseFile.generation, CaseFile.isQueued]
  | written env writes notice file outbox after until_ =>
    rw [file]
    cases notice with
    | kept job events =>
      simp [CaseFile.generation, CaseFile.isQueued, CaseFile.write_job_keep _ job]
    | delayed j unborn write events status generation stamp =>
      have hj := (w.db.caseFile id).write_job_insert write
      rw [CaseFile.generation_eq hj, CaseFile.isQueued_eq hj, (CaseFile.unborn_eq unborn).1]
      simp [generation, status]
    | born j e unborn write events status generation stamp advertises =>
      have hj := (w.db.caseFile id).write_job_insert write
      rw [CaseFile.generation_eq hj, CaseFile.isQueued_eq hj, (CaseFile.unborn_eq unborn).1,
        (CaseFile.unborn_eq unborn).2]
      simp [generation, status]
    | moved j j' job write events status queue generation stamp =>
      have hj := (w.db.caseFile id).write_job_replace write
      rw [CaseFile.generation_eq hj, CaseFile.isQueued_eq hj, CaseFile.generation_eq job]
      simp [generation, status]
    | entered j j' e job write events before status queue generation stamp advertises
    | repeated j j' e job write events before status queue generation stamp advertises silent =>
      have hj := (w.db.caseFile id).write_job_replace write
      rw [CaseFile.generation_eq hj, CaseFile.isQueued_eq hj, CaseFile.generation_eq job,
        CaseFile.isQueued_eq job]
      simp [generation, status, before]

/-- A stamp is renewed at the clock, or left alone. -/
theorem Turn.stamp (ht : Turn w w' id) (h : Heralded w.clock (w.db.caseFile id))
    (hj : (w.db.caseFile id).job = some j) :
    ∃ j', (w'.db.caseFile id).job = some j' ∧
      NotEarlier j.lastNotificationAt j'.lastNotificationAt := by
  have hsame : NotEarlier j.lastNotificationAt j.lastNotificationAt := fun x hx => ⟨x, hx, le_rfl⟩
  cases ht with
  | delivered f file deliver clock =>
    rw [file]
    exact ⟨j, hj, hsame⟩
  | written env writes notice file outbox after until_ =>
    have hrenewed : ∀ {j' : Job}, j'.lastNotificationAt = some env.clock.s₀ →
        NotEarlier j.lastNotificationAt j'.lastNotificationAt := by
      intro j' hj' x hx
      exact ⟨_, hj', (h.stamped j x hj hx).trans after⟩
    rw [file]
    cases notice with
    | kept job events => exact ⟨j, (CaseFile.write_job_keep _ job).trans hj, hsame⟩
    | delayed j₀ unborn | born j₀ e unborn =>
      rw [hj] at unborn
      cases unborn
    | moved j₀ j' job write events status queue generation stamp =>
      rw [hj] at job
      cases job
      exact ⟨j', CaseFile.write_job_replace _ write, by rw [stamp]; exact hsame⟩
    | entered j₀ j' e job write events before status queue generation stamp advertises
    | repeated j₀ j' e job write events before status queue generation stamp advertises silent =>
      exact ⟨j', CaseFile.write_job_replace _ write, hrenewed stamp⟩

/-- **An entry inserts its event.** -/
theorem Turn.entry (ht : Turn w w' id)
    (henter : ((w'.db.caseFile id).isQueued && !(w.db.caseFile id).isQueued) = true) :
    ∃ j e, (w'.db.caseFile id).job = some j ∧ w'.db.outbox.rows = w.db.outbox.rows ++ [e] ∧
      Advertises e j := by
  rw [Bool.and_eq_true, Bool.not_eq_true'] at henter
  obtain ⟨hafter, hbefore⟩ := henter
  cases ht with
  | delivered f file deliver clock =>
    have hsame : (w'.db.caseFile id).isQueued = (w.db.caseFile id).isQueued := by
      rw [file]
      rfl
    rw [hsame, hbefore] at hafter
    cases hafter
  | written env writes notice file outbox after until_ =>
    rw [file] at hafter ⊢
    cases notice with
    | kept job events =>
      rw [CaseFile.isQueued, CaseFile.write_job_keep _ job] at hafter
      rw [CaseFile.isQueued, hafter] at hbefore
      cases hbefore
    | delayed j unborn write events status =>
      rw [CaseFile.isQueued_eq (CaseFile.write_job_insert _ write)] at hafter
      exact absurd (beq_iff_eq.mp hafter) status
    | born j e unborn write events status generation stamp advertises =>
      exact ⟨j, e, CaseFile.write_job_insert _ write, by rw [outbox, events], advertises⟩
    | moved j j' job write events status =>
      rw [CaseFile.isQueued_eq (CaseFile.write_job_replace _ write)] at hafter
      exact absurd (beq_iff_eq.mp hafter) status
    | entered j j' e job write events before status queue generation stamp advertises =>
      exact ⟨j', e, CaseFile.write_job_replace _ write, by rw [outbox, events], advertises⟩
    | repeated j j' e job write events before =>
      rw [CaseFile.isQueued_eq job, before] at hbefore
      cases hbefore

end Generations

/-! ## Stranded jobs -/

section Stranded

variable {w : World} {env : Env} {j : Job} {after : Int}

/-- A stranded job is advertised again. -/
theorem Sound.renotifies (h : Sound w) (hj : j ∈ w.db.jobs.rows)
    (hstranded : isStranded w.db after env.clock.s₀ j = true) (hfresh : Fresh env w.db) :
    ∃ db', renotifyStrandedJob env j.id after w.db = .ok (true, db') ∧
      (renotifyWrites env j).Applied w.db db' := by
  cases hrun : renotifyStrandedJob env j.id after w.db with
  | error f =>
    have hcause := renotifyStrandedJob_cause hj (h.queues j hj) hrun
    obtain ⟨k, hk, hkid, -, hrefused⟩ := renotifyStrandedJob_forced hcause hrun
    rw [w.db.job_eq_of_id hk hj hkid] at hrefused
    obtain ⟨r, hr, -⟩ := hrefused.of_admitted (renotify_admitted hfresh hj hstranded) rfl
    cases hr
  | ok r =>
    obtain ⟨changed, db'⟩ := r
    rcases renotifyStrandedJob_eq_ok hrun with ⟨-, -, hnot⟩ | ⟨rfl, k, hk, hkid, -, happ⟩
    · rw [hnot j hj rfl] at hstranded
      cases hstranded
    · rw [w.db.job_eq_of_id hk hj hkid] at happ
      exact ⟨db', rfl, happ⟩

end Stranded

/-! ## Runs of the service -/

/-- A database at the start of the service: no jobs, and so no event that refers to
one. -/
structure Launched (w : World) : Prop extends Initial w where
  events : ∀ e ∈ w.db.outbox.rows, e.jobID = none

/-- What the notifications of a run are like at its end. -/
structure Notified (trace : List Transition) (w : World) : Prop where
  /-- A job's generation counts its entries to `QUEUED`. -/
  generation : ∀ j ∈ w.db.jobs.rows,
    j.notificationGeneration = trace.countP (Transition.enters j.id)
  never : ∀ j ∈ w.db.jobs.rows,
    j.notificationGeneration = 0 ↔ ∀ t ∈ trace, t.enters j.id = false
  /-- Each entry inserted one event, and it advertises the job it left. -/
  entry : ∀ t ∈ trace, ∀ id, t.enters id = true → ∃ j ∈ t.after.db.jobs.rows, j.id = id ∧
    ∃ e, t.after.db.outbox.rows = t.before.db.outbox.rows ++ [e] ∧ Advertises e j
  bounded : ∀ j ∈ w.db.jobs.rows, ∀ e ∈ w.db.outbox.rows, e.jobID = some j.id →
    ∃ g, e.notificationGeneration = some g ∧ g ≤ j.notificationGeneration
  monotone : ∀ t ∈ trace, ∀ j ∈ t.before.db.jobs.rows, ∃ j' ∈ t.after.db.jobs.rows,
    j'.id = j.id ∧ NotEarlier j.lastNotificationAt j'.lastNotificationAt
  single : ∀ id g, (w.db.outbox.rows.countP fun e =>
    e.jobID == some id && isPendingOf g e) ≤ 1
  /-- A queued job is advertised, or will be once the interval is over. -/
  advertised : ∀ j ∈ w.db.jobs.rows, j.status = .queued →
    (∃ e ∈ w.db.outbox.rows, e.jobID = some j.id ∧ isPendingOf j.notificationGeneration e = true) ∨
      ∃ last, j.lastNotificationAt = some last ∧ ∀ env after,
        goTime last + after < goTime env.clock.s₀ → Fresh env w.db →
        ∃ db' e, renotifyStrandedJob env j.id after w.db = .ok (true, db') ∧
          db'.outbox.rows = w.db.outbox.rows ++ [e] ∧ Advertises e j

section Service

variable {w₀ w w' : World} {t : Transition} {trace : List Transition} {j : Job}

/-- What a run of the service establishes of every state. -/
def Settled (w : World) : Prop := Sound w ∧ ∀ id, Heralded w.clock (w.db.caseFile id)

theorem Launched.settled (h : Launched w) : Settled w := by
  refine ⟨h.toInitial.sound, fun id => ?_⟩
  have hjob : (w.db.caseFile id).job = none := by
    rw [DB.caseFile, h.jobs]
    rfl
  have hevents : (w.db.caseFile id).events = [] := by
    simp only [DB.caseFile, List.filter_eq_nil_iff]
    intro e he
    simp [h.events e he]
  refine ⟨fun _ => hevents, ?_, ?_, ?_⟩
  · intro j hj
    rw [hjob] at hj
    cases hj
  · intro j last hj
    rw [hjob] at hj
    cases hj
  · intro g
    rw [hevents]
    exact Nat.zero_le 1

theorem ServiceStep.settled (hs : ServiceStep w t w') (h : Settled w) : Settled w' :=
  ⟨hs.sound h.1, fun id => (hs.turn h.1 id).heralded (h.2 id)⟩

theorem ServiceStep.generation (hs : ServiceStep w t w') (h : Settled w) (id : UUID) :
    (w'.db.caseFile id).generation
      = (w.db.caseFile id).generation + if t.enters id then 1 else 0 := by
  obtain ⟨rfl, rfl, -⟩ := hs.cases
  exact (hs.turn h.1 id).generation

/-- Events of one job, counted in its case file. -/
theorem countP_caseFile (db : DB) (id : UUID) (p : OutboxEvent → Bool) :
    (db.outbox.rows.countP fun e => e.jobID == some id && p e) = (db.caseFile id).events.countP p := by
  simp only [DB.caseFile]
  rw [List.countP_filter]
  refine List.countP_congr fun e _ => ?_
  simp [and_comm]

/-- A queued job that nothing pending advertises can be advertised again. -/
theorem Settled.advertised (h : Settled w) (hj : j ∈ w.db.jobs.rows) (hq : j.status = .queued) :
    (∃ e ∈ w.db.outbox.rows, e.jobID = some j.id ∧ isPendingOf j.notificationGeneration e = true) ∨
      ∃ last, j.lastNotificationAt = some last ∧ ∀ env after,
        goTime last + after < goTime env.clock.s₀ → Fresh env w.db →
        ∃ db' e, renotifyStrandedJob env j.id after w.db = .ok (true, db') ∧
          db'.outbox.rows = w.db.outbox.rows ++ [e] ∧ Advertises e j := by
  by_cases hpending : hasPendingWorkAvailable w.db j.id j.notificationGeneration = true
  · left
    simp only [hasPendingWorkAvailable, List.any_eq_true, Bool.and_eq_true, beq_iff_eq] at hpending
    obtain ⟨e, he, ⟨hjob, hgen⟩, hstatus⟩ := hpending
    exact ⟨e, he, hjob, by simp [isPendingOf, hgen, hstatus]⟩
  · right
    have hwaits := ((h.1.cases j.id).phase (caseFile_job_of_mem hj)).waits (.inr (.inl hq))
    have hgen := (hwaits.due hq).2
    -- A generation above zero has its stamp, by the table's check.
    have hstamp : j.lastNotificationAt.isSome = true := by
      have hcheck := (w.db.job_checked hj).generation
      rw [Job.notificationGenerationConsistent, beq_iff_eq] at hcheck
      rw [hcheck]
      exact decide_eq_true hgen
    obtain ⟨last, hlast⟩ := Option.isSome_iff_exists.mp hstamp
    refine ⟨last, hlast, fun env after hlate hfresh => ?_⟩
    have hstranded : isStranded w.db after env.clock.s₀ j = true := by
      have hbefore : goTime last < goTime env.clock.s₀ - after := by omega
      simp [isStranded, hq, hgen, hlast, hbefore, hpending]
    obtain ⟨db', hok, happ⟩ := h.1.renotifies hj hstranded hfresh
    exact ⟨db', _, hok, happ.outbox, advertises_workAvailableEvent _ _ _ rfl rfl rfl⟩

/-- **Generations count entries, entries are advertised, and no advertisement is
doubled or missing.** -/
theorem notification_generations (hinit : Launched w₀) (hrun : Service w₀ trace w) :
    Notified trace w := by
  have hsettled : Settled w := hrun.invariant (fun h hs => hs.settled h) hinit.settled
  have hcount : ∀ j ∈ w.db.jobs.rows,
      j.notificationGeneration = trace.countP (Transition.enters j.id) := by
    intro j hj
    have hrunCount := hrun.count (P := Settled) (f := fun w => (w.db.caseFile j.id).generation)
      (fun h hs => hs.settled h) (fun h hs => hs.generation h j.id) hinit.settled
    have hunborn : (w₀.db.caseFile j.id).job = none := by
      rw [DB.caseFile, hinit.jobs]
      rfl
    rw [CaseFile.generation_eq (caseFile_job_of_mem hj), (CaseFile.unborn_eq hunborn).1,
      Nat.zero_add] at hrunCount
    exact hrunCount
  -- A step of the run starts from a settled state.
  have hstep : ∀ t ∈ trace, Settled t.before ∧ ServiceStep t.before t t.after := by
    intro t ht
    obtain ⟨pre, post, s₁, s₂, -, hpre, hs, -⟩ := hrun.exists_step_of_mem ht
    obtain ⟨rfl, rfl, -⟩ := hs.cases
    exact ⟨hpre.invariant (fun h hs => hs.settled h) hinit.settled, hs⟩
  refine ⟨hcount, ?_, ?_, ?_, ?_, ?_, fun j hj hq => hsettled.advertised hj hq⟩
  · intro j hj
    rw [hcount j hj, List.countP_eq_zero]
    exact forall₂_congr fun t _ => iff_of_eq (Bool.not_eq_true _)
  · intro t ht id henter
    obtain ⟨hbefore, hs⟩ := hstep t ht
    obtain ⟨j, e, hj, hrows, hadvertises⟩ := (hs.turn hbefore.1 id).entry henter
    obtain ⟨hmem, hid⟩ := caseFile_job_eq_some.mp hj
    exact ⟨j, hmem, hid, e, hrows, hadvertises⟩
  · intro j hj e he hjob
    have hmem : e ∈ (w.db.caseFile j.id).events := by simp [DB.caseFile, he, hjob]
    exact (hsettled.2 j.id).bounded j (caseFile_job_of_mem hj) e hmem
  · intro t ht j hj
    obtain ⟨hbefore, hs⟩ := hstep t ht
    obtain ⟨j', hj', hstamp⟩ :=
      (hs.turn hbefore.1 j.id).stamp (hbefore.2 j.id) (caseFile_job_of_mem hj)
    obtain ⟨hmem, hid⟩ := caseFile_job_eq_some.mp hj'
    exact ⟨j', hmem, hid, hstamp⟩
  · intro id g
    rw [countP_caseFile]
    exact (hsettled.2 id).single g

end Service

/-- The sample job fails once, and is promoted when its delay is over: it has entered
`QUEUED` twice. -/
theorem notification_generations_sample :
    ∃ trace, Service quiet trace (quiet.exec (sampleStart ++ [sampleFail] ++ sampleRetry)).2 ∧
      Notified trace (quiet.exec (sampleStart ++ [sampleFail] ++ sampleRetry)).2 ∧
      ∃ j ∈ (quiet.exec (sampleStart ++ [sampleFail] ++ sampleRetry)).2.db.jobs.rows,
        j.notificationGeneration = 2 := by
  obtain ⟨trace, htrace⟩ := service_of_run (World.exec_run
    (by decide +kernel : Clocked quiet.clock (sampleStart ++ [sampleFail] ++ sampleRetry)))
  exact ⟨trace, htrace, notification_generations ⟨quiet_initial, by decide +kernel⟩ htrace,
    by decide +kernel⟩

end TaskForge
