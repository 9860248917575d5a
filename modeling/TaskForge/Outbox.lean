/-
The publisher's side of the outbox (`internal/outbox`), and the service as a whole.

The store transactions append events; the publisher's transactions move the
events that are there. `ClaimDue` hides a batch of due events for a while,
`RecordFailure` hides one after a failed publish, and `MarkPublished` takes an
event out of `PENDING` for good. None of them touches another table, and none of
them changes which job and which generation an event speaks of (`Delivered`).

The service is the store and the publishers, interleaved. Its steps carry the two
states they lead between, so that a whole run can be asked how often something
became true.
-/
import TaskForge.Invariant

open Relational Fallible

namespace TaskForge

/-! ## Events -/

/-- `outbox.Event` -/
structure Event where
  id : UUID
  type_ : String
  schemaVersion : Int
  data : WorkAvailableData
  trace : Option TraceContext
  attempts : ℕ
  createdAt : Int
deriving DecidableEq

/-- `ClaimDue`'s scan of a row. A tracestate without a traceparent is dropped. -/
def scanEvent (e : OutboxEvent) : Event where
  id := e.id
  type_ := e.eventType
  schemaVersion := e.schemaVersion
  data := e.payload
  trace := e.traceparent.map fun parent => ⟨parent, e.tracestate.getD ""⟩
  attempts := e.attempts
  createdAt := e.createdAt

/-- `outbox.Envelope` -/
structure Envelope where
  eventID : UUID
  eventType : String
  schemaVersion : Int
  occurredAt : Int
  trace : Option TraceContext
  data : WorkAvailableData
deriving DecidableEq

/-- `Event.Envelope` -/
def Event.envelope (e : Event) : Envelope where
  eventID := e.id
  eventType := e.type_
  schemaVersion := e.schemaVersion
  occurredAt := goTime e.createdAt
  trace := e.trace
  data := e.data

/-! ## Transactions -/

/-- A pending event whose instant has come, and that no other claim has locked. -/
def isDueEvent (now : Int) (locked : List UUID) (e : OutboxEvent) : Bool :=
  e.status == .pending && decide (e.availableAt ≤ now) && !locked.contains e.id

/-- `ORDER BY available_at, id` -/
def dueBefore (x y : OutboxEvent) : Bool :=
  decide (x.availableAt < y.availableAt) || (x.availableAt == y.availableAt && decide (x.id ≤ y.id))

/-- The ids `ClaimDue` selects. -/
def dueEvents (db : DB) (now : Int) (limit : ℕ) (locked : List UUID) : List UUID :=
  (((db.outbox.rows.filter (isDueEvent now locked)).mergeSort dueBefore).take limit).map
    OutboxEvent.id

/-- `ClaimDue`'s update. -/
def hiddenEvent (now claimTimeout : Int) (e : OutboxEvent) : OutboxEvent :=
  { e with
    attempts := e.attempts + 1
    claimedAt := some now
    availableAt := now + claimTimeout }

/-- `Store.ClaimDue`. The timeout is the interval PostgreSQL makes of it, in
microseconds; `locked` are the rows `SKIP LOCKED` skips. -/
def claimDue (now : Int) (limit : ℕ) (claimTimeout : Int) (locked : List UUID) (db : DB) :
    Tx (List Event × DB) := do
  let due := dueEvents db now limit locked
  let outbox ← updateRows .outboxEvents db.outbox
    (fun e => due.contains e.id) (hiddenEvent now claimTimeout)
    (reported "claim due outbox events")
  pure ((outbox.rows.filter fun e => due.contains e.id).map scanEvent, { db with outbox := outbox })

/-- The pending event of an id. -/
def isPendingEvent (id : UUID) (e : OutboxEvent) : Bool := e.id == id && e.status == .pending

/-- `MarkPublished`'s update. -/
def publishedEvent (now : Int) (e : OutboxEvent) : OutboxEvent :=
  { e with status := .published, publishedAt := some now, lastError := none }

/-- `Store.MarkPublished` -/
def markPublished (now : Int) (id : UUID) (db : DB) : Tx (Bool × DB) := do
  let outbox ← updateRows .outboxEvents db.outbox (isPendingEvent id) (publishedEvent now)
    (reported "mark outbox event published")
  pure (db.outbox.count (isPendingEvent id) == 1, { db with outbox := outbox })

/-- `maxStoredError` -/
def maxStoredError : ℕ := 1000

/-- The text `RecordFailure` stores; none when the cut leaves bytes that are no
text, which PostgreSQL refuses. -/
def storedCause (cause : String) : Option String :=
  if maxStoredError < octetLength cause then sliceOctets maxStoredError cause else some cause

/-- `RecordFailure`'s update. -/
def failedEvent (now retryAfter : Int) (cause : String) (e : OutboxEvent) : OutboxEvent :=
  { e with lastError := some cause, availableAt := now + retryAfter }

/-- `Store.RecordFailure` -/
def recordFailure (now : Int) (id : UUID) (cause : String) (retryAfter : Int) (db : DB) :
    Tx (Unit × DB) := do
  let stored ← orFail ((storedCause cause).filter storable)
    ⟨.failed "record outbox failure", .schema .outboxEvents .check⟩
  let outbox ← updateRows .outboxEvents db.outbox (isPendingEvent id)
    (failedEvent now retryAfter stored) (reported "record outbox failure")
  pure ((), { db with outbox := outbox })

/-- `ReleaseClaim`'s update. -/
def releasedEvent (now : Int) (e : OutboxEvent) : OutboxEvent := { e with availableAt := now }

/-- `Store.ReleaseClaim` -/
def releaseClaim (now : Int) (id : UUID) (db : DB) : Tx (Unit × DB) := do
  let outbox ← updateRows .outboxEvents db.outbox (isPendingEvent id) (releasedEvent now)
    (reported "release outbox claim")
  pure ((), { db with outbox := outbox })

/-! ## What they may do to an event -/

/-- The columns that say what an event speaks of. -/
def OutboxEvent.subject (e : OutboxEvent) :
    UUID × String × Int × WorkAvailableData × Int × Option UUID × Option ℕ × Option String ×
      Option String :=
  (e.id, e.eventType, e.schemaVersion, e.payload, e.createdAt, e.jobID, e.notificationGeneration,
    e.traceparent, e.tracestate)

/-- `e'` is `e`, some transactions of the publisher later: it speaks of the same
thing, and once published it stays as it is. -/
structure Delivered (e e' : OutboxEvent) : Prop where
  subject : e'.subject = e.subject
  published : e.status = .published → e' = e

/-- The outbox moved, event by event, and nothing else did. -/
structure EventsMoved (db db' : DB) : Prop where
  only : db' = { db with outbox := db'.outbox }
  rows : ∃ f, db'.outbox.rows = db.outbox.rows.map f ∧ ∀ e ∈ db.outbox.rows, Delivered e (f e)

section Spec

variable {db : DB} {now : Int} {e e' : OutboxEvent}

theorem Delivered.refl (e : OutboxEvent) : Delivered e e := ⟨rfl, fun _ => rfl⟩

theorem Delivered.of_pending (hp : e.status = .pending) (h : e'.subject = e.subject) :
    Delivered e e' := by
  refine ⟨h, fun hs => ?_⟩
  rw [hp] at hs
  cases hs

/-- A published event is not pending again. -/
theorem Delivered.pending (h : Delivered e e') (hp : e'.status = .pending) :
    e.status = .pending := by
  cases hs : e.status with
  | pending => rfl
  | published =>
    rw [h.published hs, hs] at hp
    cases hp

theorem Delivered.id (h : Delivered e e') : e'.id = e.id := congrArg (·.1) h.subject

theorem Delivered.eventType (h : Delivered e e') : e'.eventType = e.eventType :=
  congrArg (·.2.1) h.subject

theorem Delivered.payload (h : Delivered e e') : e'.payload = e.payload :=
  congrArg (·.2.2.2.1) h.subject

theorem Delivered.jobID (h : Delivered e e') : e'.jobID = e.jobID :=
  congrArg (·.2.2.2.2.2.1) h.subject

theorem Delivered.generation (h : Delivered e e') :
    e'.notificationGeneration = e.notificationGeneration :=
  congrArg (·.2.2.2.2.2.2.1) h.subject

theorem isPendingEvent_eq_true {id : UUID} :
    isPendingEvent id e = true ↔ e.id = id ∧ e.status = .pending := by
  simp [isPendingEvent]

/-- What `ClaimDue` selects are pending events of the outbox whose instant has come. -/
theorem mem_dueEvents {limit : ℕ} {locked : List UUID} {id : UUID}
    (hdue : id ∈ dueEvents db now limit locked) :
    ∃ e ∈ db.outbox.rows, e.id = id ∧ e.status = .pending ∧ e.availableAt ≤ now := by
  obtain ⟨x, hx, hid⟩ := List.mem_map.mp hdue
  have hsel := List.mem_mergeSort.mp (List.mem_of_mem_take hx)
  obtain ⟨hmem, hp⟩ := List.mem_filter.mp hsel
  simp only [isDueEvent, Bool.and_eq_true, beq_iff_eq, decide_eq_true_eq] at hp
  exact ⟨x, hmem, hid, hp.1.1, hp.1.2⟩

theorem pending_of_mem_dueEvents {limit : ℕ} {locked : List UUID} (he : e ∈ db.outbox.rows)
    (hdue : e.id ∈ dueEvents db now limit locked) : e.status = .pending := by
  obtain ⟨x, hx, hid, hp, -⟩ := mem_dueEvents hdue
  rwa [db.event_eq_of_id hx he hid] at hp

end Spec

/-! ## The service -/

/-- The publisher's transactions, with their arguments. -/
inductive OutboxCall where
  | claimDue (limit : ℕ) (claimTimeout : Int) (locked : List UUID)
  | markPublished (id : UUID)
  | recordFailure (id : UUID) (cause : String) (retryAfter : Int)
  | releaseClaim (id : UUID)
deriving DecidableEq

/-- What they answer. -/
inductive OutboxAnswer where
  | claimed (events : List Event)
  | marked (changed : Bool)
  | recorded
  | released
deriving DecidableEq

/-- The transaction of a publisher's call, begun at `now`. -/
def OutboxCall.run (now : Int) (db : DB) : OutboxCall → Tx (OutboxAnswer × DB)
  | .claimDue limit claimTimeout locked => do
    let (events, db) ← TaskForge.claimDue now limit claimTimeout locked db
    pure (.claimed events, db)
  | .markPublished id => do
    let (changed, db) ← TaskForge.markPublished now id db
    pure (.marked changed, db)
  | .recordFailure id cause retryAfter => do
    let (_, db) ← TaskForge.recordFailure now id cause retryAfter db
    pure (.recorded, db)
  | .releaseClaim id => do
    let (_, db) ← TaskForge.releaseClaim now id db
    pure (.released, db)

/-- What was done: a store transaction, or one of the publisher's. -/
inductive Action where
  | store (l : Label)
  | outbox (now : Int) (call : OutboxCall) (outcome : Except Failure OutboxAnswer)

/-- A step and the states it leads between. -/
structure Transition where
  before : World
  action : Action
  after : World

/-- One transaction of the service. A publisher's statement is dated by `now()`,
which may lie before the latest sample of the clock. -/
inductive ServiceStep : World → Transition → World → Prop where
  | store {w w' : World} {l : Label} (step : Step w l w') : ServiceStep w ⟨w, .store l, w'⟩ w'
  | outbox {w : World} {now : Int} {call : OutboxCall} {ans : OutboxAnswer} {db : DB}
      (run : call.run now w.db = .ok (ans, db)) :
      ServiceStep w ⟨w, .outbox now call (.ok ans), ⟨db, w.clock⟩⟩ ⟨db, w.clock⟩
  | failed {w : World} {now : Int} {call : OutboxCall} {f : Failure}
      (run : call.run now w.db = .error f) : ServiceStep w ⟨w, .outbox now call (.error f), w⟩ w

/-- A finite sequence of transactions of the service. -/
abbrev Service := Runs.Run ServiceStep

section Service

variable {w w' : World} {t : Transition} {db db' : DB} {now : Int}

/-- The ids of the events a call answers with. -/
def OutboxAnswer.ids : OutboxAnswer → List UUID
  | .claimed events => events.map Event.id
  | _ => []

/-- What each call may make of an event: only a claim answers with it and hides it, and
only a pending event is touched. -/
inductive Moves (now : Int) :
    OutboxCall → OutboxAnswer → OutboxEvent → OutboxEvent → Prop where
  | kept {call : OutboxCall} {ans : OutboxAnswer} {e : OutboxEvent} (unclaimed : e.id ∉ ans.ids) :
      Moves now call ans e e
  | claimed {limit : ℕ} {timeout : Int} {locked : List UUID} {ans : OutboxAnswer} {e : OutboxEvent}
      (taken : e.id ∈ ans.ids) (pending : e.status = .pending) (due : e.availableAt ≤ now) :
      Moves now (.claimDue limit timeout locked) ans e (hiddenEvent now timeout e)
  | published {changed : Bool} {e : OutboxEvent} (pending : e.status = .pending) :
      Moves now (.markPublished e.id) (.marked changed) e (publishedEvent now e)
  | failed {cause stored : String} {after : Int} {e : OutboxEvent} (pending : e.status = .pending) :
      Moves now (.recordFailure e.id cause after) .recorded e (failedEvent now after stored e)
  | released {e : OutboxEvent} (pending : e.status = .pending) :
      Moves now (.releaseClaim e.id) .released e (releasedEvent now e)

theorem run_claimDue {limit : ℕ} {timeout : Int} {locked : List UUID}
    {events : List Event}
    (h : claimDue now limit timeout locked db = .ok (events, db')) :
    (OutboxCall.claimDue limit timeout locked).run now db = .ok (.claimed events, db') := by
  simp only [OutboxCall.run, h, ok_bind]
  rfl

theorem run_markPublished {id : UUID} {changed : Bool}
    (h : markPublished now id db = .ok (changed, db')) :
    (OutboxCall.markPublished id).run now db = .ok (.marked changed, db') := by
  simp only [OutboxCall.run, h, ok_bind]
  rfl

theorem run_recordFailure {id : UUID} {cause : String} {after : Int} {u : Unit}
    (h : recordFailure now id cause after db = .ok (u, db')) :
    (OutboxCall.recordFailure id cause after).run now db = .ok (.recorded, db') := by
  simp only [OutboxCall.run, h, ok_bind]
  rfl

section Moves

variable {call : OutboxCall} {ans : OutboxAnswer} {e e' : OutboxEvent}

theorem Moves.of_pending {id : UUID} {f : OutboxEvent → OutboxEvent} (hans : ans.ids = [])
    (h : e.id = id → e.status = .pending → Moves now call ans e (f e)) :
    Moves now call ans e (if isPendingEvent id e then f e else e) := by
  split_ifs with hp
  · obtain ⟨hid, hpending⟩ := isPendingEvent_eq_true.mp hp
    exact h hid hpending
  · exact .kept (by simp [hans])

/-- Each call is one update of the outbox, that moves every event. -/
theorem OutboxCall.moves (h : call.run now db = .ok (ans, db')) :
    db' = { db with outbox := db'.outbox } ∧
    (∀ id ∈ ans.ids, ∃ e ∈ db.outbox.rows, e.id = id) ∧
    ∃ f, db'.outbox.rows = db.outbox.rows.map f ∧
      ∀ e ∈ db.outbox.rows, Moves now call ans e (f e) := by
  cases call with
  | claimDue limit timeout locked =>
    simp only [OutboxCall.run, TaskForge.claimDue, bind_eq_ok, pure_eq_ok, Prod.mk.injEq] at h
    obtain ⟨-, ⟨outbox, hupd, rfl⟩, rfl, rfl⟩ := h
    have hrows := Table.update_rows (orRefused_eq_ok.mp hupd)
    -- The answer has the ids that were selected.
    have hids : ∀ id, id ∈ OutboxAnswer.ids (.claimed ((outbox.rows.filter fun e =>
        (dueEvents db now limit locked).contains e.id).map scanEvent)) ↔
          id ∈ dueEvents db now limit locked := by
      intro id
      rw [OutboxAnswer.ids, List.map_map, List.mem_map]
      constructor
      · rintro ⟨r, hr, rfl⟩
        exact List.contains_iff_mem.mp (List.mem_filter.mp hr).2
      · intro hdue
        obtain ⟨e, he, rfl, -⟩ := mem_dueEvents hdue
        have hsel := List.contains_iff_mem.mpr hdue
        refine ⟨hiddenEvent now timeout e, List.mem_filter.mpr ⟨?_, hsel⟩, rfl⟩
        rw [hrows]
        exact List.mem_map.mpr ⟨e, he, if_pos hsel⟩
    refine ⟨rfl, fun id hid => ?_, _, hrows, fun e he => ?_⟩
    · obtain ⟨e, he, heid, -⟩ := mem_dueEvents ((hids id).mp hid)
      exact ⟨e, he, heid⟩
    · split_ifs with hsel
      · have hdue := List.contains_iff_mem.mp hsel
        obtain ⟨r, hr, hid, hpending, havailable⟩ := mem_dueEvents hdue
        obtain rfl := db.event_eq_of_id hr he hid
        exact .claimed ((hids _).mpr hdue) hpending havailable
      · exact .kept fun hid => hsel (List.contains_iff_mem.mpr ((hids _).mp hid))
  | markPublished id =>
    simp only [OutboxCall.run, TaskForge.markPublished, bind_eq_ok, pure_eq_ok, Prod.mk.injEq] at h
    obtain ⟨-, ⟨outbox, hupd, rfl⟩, rfl, rfl⟩ := h
    refine ⟨rfl, by simp [OutboxAnswer.ids], _, Table.update_rows (orRefused_eq_ok.mp hupd), ?_⟩
    exact fun e _ => .of_pending rfl fun hid hpending => hid ▸ .published hpending
  | recordFailure id cause after =>
    simp only [OutboxCall.run, TaskForge.recordFailure, bind_eq_ok, pure_eq_ok, Prod.mk.injEq] at h
    obtain ⟨-, ⟨stored, -, outbox, hupd, rfl⟩, rfl, rfl⟩ := h
    refine ⟨rfl, by simp [OutboxAnswer.ids], _, Table.update_rows (orRefused_eq_ok.mp hupd), ?_⟩
    exact fun e _ => .of_pending rfl fun hid hpending => hid ▸ .failed hpending
  | releaseClaim id =>
    simp only [OutboxCall.run, TaskForge.releaseClaim, bind_eq_ok, pure_eq_ok, Prod.mk.injEq] at h
    obtain ⟨-, ⟨outbox, hupd, rfl⟩, rfl, rfl⟩ := h
    refine ⟨rfl, by simp [OutboxAnswer.ids], _, Table.update_rows (orRefused_eq_ok.mp hupd), ?_⟩
    exact fun e _ => .of_pending rfl fun hid hpending => hid ▸ .released hpending

theorem Moves.delivered (h : Moves now call ans e e') : Delivered e e' := by
  cases h with
  | kept => exact Delivered.refl e
  | claimed _ pending | published pending | failed pending | released pending =>
    exact .of_pending pending rfl

theorem OutboxCall.moved (h : call.run now db = .ok (ans, db')) : EventsMoved db db' := by
  obtain ⟨honly, -, f, hrows, hf⟩ := OutboxCall.moves h
  exact ⟨honly, f, hrows, fun e he => (hf e he).delivered⟩

theorem EventsMoved.kept (h : EventsMoved db db') :
    ∀ e ∈ db.outbox.rows, ∃ e' ∈ db'.outbox.rows, Delivered e e' := by
  obtain ⟨f, hrows, hf⟩ := h.rows
  intro e he
  exact ⟨f e, hrows ▸ List.mem_map_of_mem he, hf e he⟩

/-- Only `MarkPublished` takes an event out of `PENDING`, and only its own. -/
theorem OutboxCall.published (h : call.run now db = .ok (ans, db')) (he : e' ∈ db'.outbox.rows)
    (hp : e'.status = .published) :
    call = .markPublished e'.id ∨ ∃ e ∈ db.outbox.rows, e.id = e'.id ∧ e.status = .published := by
  obtain ⟨-, -, f, hrows, hf⟩ := OutboxCall.moves h
  rw [hrows] at he
  obtain ⟨e, hmem, rfl⟩ := List.mem_map.mp he
  have hmoves := hf e hmem
  generalize f e = e' at hmoves hp
  cases hmoves with
  | published => exact .inl rfl
  | kept | claimed | failed | released => exact .inr ⟨e, hmem, rfl, hp⟩

end Moves

theorem EventsMoved.refl (db : DB) : EventsMoved db db := by
  refine ⟨rfl, fun e => e, (List.map_id _).symm, fun e _ => Delivered.refl e⟩

/-- A transition of the service is a store transaction, or moves events. -/
theorem ServiceStep.cases (h : ServiceStep w t w') :
    t.before = w ∧ t.after = w' ∧
      ((∃ l, t.action = .store l ∧ Step w l w') ∨
        (EventsMoved w.db w'.db ∧ w'.clock = w.clock)) := by
  cases h with
  | store step => exact ⟨rfl, rfl, .inl ⟨_, rfl, step⟩⟩
  | outbox run => exact ⟨rfl, rfl, .inr ⟨OutboxCall.moved run, rfl⟩⟩
  | failed run => exact ⟨rfl, rfl, .inr ⟨EventsMoved.refl _, rfl⟩⟩

/-- The case files of a delivery: the events move, and nothing else is seen to. -/
theorem EventsMoved.caseFile (h : EventsMoved db db') (id : UUID) :
    ∃ f, db'.caseFile id = { db.caseFile id with events := (db.caseFile id).events.map f } ∧
      ∀ e ∈ (db.caseFile id).events, Delivered e (f e) := by
  obtain ⟨f, hrows, hf⟩ := h.rows
  refine ⟨f, ?_, fun e he => hf e (List.mem_filter.mp he).1⟩
  have hevents : (db'.caseFile id).events = (db.caseFile id).events.map f := by
    simp only [DB.caseFile]
    rw [hrows, List.filter_map]
    refine congrArg (List.map f) (List.filter_congr fun e he => ?_)
    rw [Function.comp_apply, (hf e he).jobID]
  rw [← hevents, h.only]
  rfl

/-- The phases do not look at the events. -/
theorem Good.events {cf : CaseFile} (h : Good now cf) (events : List OutboxEvent) :
    Good now { cf with events := events } := by
  cases hj : cf.job with
  | none =>
    have hunborn := h.unborn hj
    exact hunborn
  | some j =>
    have hphase := h.phase hj
    unfold Good
    cases hphase with
    | waiting status waits =>
      exact .waiting status ⟨waits.history, waits.retried, waits.room, waits.due, waits.dlq,
        waits.results⟩
    | executing past pastLeases a l run =>
      exact .executing past pastLeases a l ⟨run.attempts, run.leases, run.history, run.retried,
        run.bound, run.number, run.open_, run.status, run.room, run.dlq, run.results⟩
    | ended history final room =>
      refine .ended history ?_ room
      cases final with
      | succeeded status past a attempts retried last dlq results =>
        exact .succeeded status past a attempts retried last dlq results
      | canceled status closed dlq results => exact .canceled status closed dlq results
      | dead status past a e attempts retried last dlq entry results =>
        exact .dead status past a e attempts retried last dlq entry results

theorem EventsMoved.sound (h : EventsMoved w.db w'.db) (hclock : w'.clock = w.clock)
    (hsound : Sound w) : Sound w' := by
  have honly := h.only
  refine ⟨fun id => ?_, ?_, ?_, ?_, ?_⟩
  · obtain ⟨f, hcf, -⟩ := h.caseFile id
    rw [hcf, hclock]
    exact (hsound.cases id).events _
  · rw [honly]
    exact hsound.queues
  · rw [honly]
    exact hsound.bindings
  · rw [honly, hclock]
    exact hsound.registered
  · rw [honly]
    exact hsound.workers

/-- **The service keeps the invariant of the store.** -/
theorem ServiceStep.sound (h : ServiceStep w t w') (hsound : Sound w) : Sound w' := by
  obtain ⟨-, -, ⟨l, -, hstep⟩ | ⟨hmoved, hclock⟩⟩ := h.cases
  · exact hstep.sound hsound
  · exact hmoved.sound hclock hsound

/-- Runs of the store are runs of the service. -/
theorem service_of_run {ls : List Label} (hrun : Execution w ls w') :
    ∃ trace, Service w trace w' := by
  induction hrun with
  | nil w => exact ⟨[], .nil w⟩
  | cons head _ ih =>
    obtain ⟨trace, htrace⟩ := ih
    exact ⟨_, .cons (.store head) htrace⟩

end Service

end TaskForge
