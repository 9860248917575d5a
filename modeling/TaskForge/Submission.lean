/-
Submissions and replays, statement by statement (`internal/jobs`).

`Submit` and `Replay` make jobs. Both insert the job first and the record of its
identity after it, so a call that loses the race for the identity has a job row
of its own to take back: it rolls back, and reads outside any transaction what the
winner committed. Here a call is cut at its SQL statements. Between two of them the
other calls run theirs, and the rest of the service commits its transactions.

A row that is inserted and not committed is seen by nobody, but its unique keys are
taken: an insert that clashes with it waits for the end of its transaction
(`Stage.passes`). `ON CONFLICT DO NOTHING` returns no row when a row with the
identity is committed. A call may fail at any statement, and the rows it inserted
are gone with its transaction. A `COMMIT` that is cut short is ambiguous, as the API
tells its callers: it may have taken effect, though its call is told that it failed.

The statements are those of `Submit` and `Replay` in `Jobs.lean`, which runs each
call at once; `Birth.writes` is what either writes there.
-/
import TaskForge.Outbox

open Relational Fallible

namespace TaskForge

/-! ## Calls and identities -/

/-- The arguments of `Submit`, and what it draws and reads. -/
structure Submission where
  env : Env
  scope : String
  key : String
  req : NormalizedRequest
  trace : TraceContext

/-- `req.Fingerprint()` -/
def Submission.fingerprint (s : Submission) : String := s.env.fingerprint s.req

/-- The arguments of `Replay`, and what it draws and reads. -/
structure Replaying where
  env : Env
  scope : String
  originalJobID : UUID
  key : String

/-- A call that makes a job. -/
inductive Creation where
  | submit (s : Submission)
  | replay (r : Replaying)

/-- What makes two calls ask for the same job. -/
inductive Identity where
  | submission (scope key : String)
  | replay (scope : String) (originalJobID : UUID) (key : String)
deriving DecidableEq

namespace Creation

def env : Creation → Env
  | .submit s => s.env
  | .replay r => r.env

def scope : Creation → String
  | .submit s => s.scope
  | .replay r => r.scope

def identity : Creation → Identity
  | .submit s => .submission s.scope s.key
  | .replay r => .replay r.scope r.originalJobID r.key

end Creation

/-- The row that records an identity. -/
inductive Record where
  | submission (r : IdempotencyRecord)
  | replay (r : DLQReplay)
deriving DecidableEq

namespace Record

def identity : Record → Identity
  | .submission r => .submission r.scope r.idempotencyKey
  | .replay r => .replay r.scope r.originalJobID r.idempotencyKey

def scope : Record → String
  | .submission r => r.scope
  | .replay r => r.scope

/-- The job made under the identity. -/
def jobID : Record → UUID
  | .submission r => r.jobID
  | .replay r => r.replacementJobID

def check : Record → Bool
  | .submission r => idempotencyRecords.check r
  | .replay r => dlqReplays.check r

def clash : Record → Record → Bool
  | .submission a, .submission b => idempotencyRecords.clash a b
  | .replay a, .replay b => dlqReplays.clash a b
  | _, _ => false

end Record

/-- The records that are committed. -/
def DB.records (db : DB) : List Record :=
  db.idempotency.rows.map .submission ++ db.dlqReplays.rows.map .replay

/-- The record answers the call: for a submission, it is of the same request. -/
def Creation.Agrees : Creation → Record → Prop
  | .submit s, .submission r => r.requestFingerprint = s.fingerprint
  | .submit _, .replay _ => False
  | .replay _, _ => True

/-! ## The rows a call writes -/

/-- What a call is about to make, once it has read what it needs. -/
inductive Birth where
  | submission (s : Submission)
  | replay (r : Replaying) (original : Job)

namespace Birth

def creation : Birth → Creation
  | .submission s => .submit s
  | .replay r _ => .replay r

def job : Birth → Job
  | .submission s => submittedJob s.env s.scope s.req
  | .replay r original => replacementJob r.env r.scope original

def record : Birth → Record
  | .submission s =>
    .submission ⟨s.scope, s.key, s.fingerprint, s.env.id₁, s.env.clock.start⟩
  | .replay r _ => .replay ⟨r.scope, r.originalJobID, r.key, r.env.id₁, r.env.clock.start⟩

/-- The notification; none for a delayed submission. -/
def event : Birth → Option OutboxEvent
  | .submission s =>
    if isDelayed s.env.clock.s₀ s.req then none
    else some (workAvailableEvent s.env.id₂ s.env.clock.start s.env.id₁ s.req.queue 1 (some s.trace))
  | .replay r original =>
    some (workAvailableEvent r.env.id₂ r.env.clock.start r.env.id₁ original.queue 1 none)

/-- The job it answers with. -/
def view : Birth → JobView
  | .submission s => submittedView s.env s.scope s.req
  | .replay r original => scanJob (replacementJob r.env r.scope original)

/-- The rows pass their checks. -/
def fits (b : Birth) : Bool :=
  jobs.check b.job && b.record.check && b.event.all outboxEvents.check

/-- `INSERT INTO jobs` -/
def insertJob (db : DB) (b : Birth) : Tx (Table jobs) :=
  insertRow .jobs db.jobs b.job <| reported <|
    match b with
    | .submission _ => "insert job"
    | .replay _ _ => "insert replacement job"

/-- `INSERT INTO idempotency_records` and `INSERT INTO dlq_replays`, when there is no
conflict. -/
def insertRecord (db : DB) (b : Birth) : Tx DB :=
  match b.record with
  | .submission r => do
    let idempotency ← insertRow .idempotencyRecords db.idempotency r
      (reported "insert idempotency record")
    pure { db with idempotency := idempotency }
  | .replay r => do
    let replays ← insertRow .dlqReplays db.dlqReplays r (reported "insert replay identity")
    pure { db with dlqReplays := replays }

/-- `InsertWorkAvailableTx`, if there is something to notify of. -/
def insertEvent (db : DB) : Birth → Tx (Table outboxEvents)
  | .submission s => notifySubmitted s.env db.outbox (submittedJob s.env s.scope s.req) s.trace
  | .replay r original =>
    insertWorkAvailableTx db.outbox r.env.id₂ r.env.clock.start r.env.id₁ original.queue 1 none

/-- `COMMIT`: the rows that were inserted are there for everybody. -/
def commit (db : DB) (b : Birth) : Tx DB := do
  let jobs ← b.insertJob db
  let recorded ← b.insertRecord db
  let outbox ← b.insertEvent db
  pure { recorded with jobs := jobs, outbox := outbox }

/-- The rows, as the writes of a transaction. -/
def writes (b : Birth) : Writes where
  job := .insert b.job
  events := b.event.toList
  idempotency := match b.record with
    | .submission r => [r]
    | .replay _ => []
  replays := match b.record with
    | .submission _ => []
    | .replay r => [r]

end Birth

/-- `resolveExisting` and `resolveExistingReplay`, up to the read of the job. -/
def Creation.readRecord (db : DB) : Creation → Tx UUID
  | .submit s => do
    let record ← fetch
      (db.idempotency.rows.find? fun r => r.scope == s.scope && r.idempotencyKey == s.key)
      (.failed "idempotency record disappeared during submission; retry the request")
    demand (record.requestFingerprint == s.fingerprint) .idempotencyConflict
    pure record.jobID
  | .replay r => do
    let record ← fetch (db.dlqReplays.rows.find? fun x =>
        x.scope == r.scope && x.originalJobID == r.originalJobID && x.idempotencyKey == r.key)
      (.failed "replay record disappeared during replay; retry the request")
    pure record.replacementJobID

/-! ## Statements -/

/-- How a call ends. -/
inductive Outcome where
  /-- It made the job. -/
  | made (job : JobView)
  /-- The job was made before. -/
  | found (job : JobView)
  | refused (f : Failure)
  /-- The database did not answer, or answered with an error of its own. -/
  | broken
deriving DecidableEq

/-- The statement a call is about to run. -/
inductive Stage where
  -- `Submit`
  | checkQueue (s : Submission)
  | beginSubmit (s : Submission)
  | readSubmissionTime (s : Submission)
  -- `Replay`
  | beginReplay (r : Replaying)
  | route (r : Replaying)
  | lockQueue (r : Replaying) (queue : String)
  | lockOriginal (r : Replaying)
  | readEntry (r : Replaying) (original : Job)
  | readReplayTime (r : Replaying) (original : Job)
  -- both
  | insertJob (b : Birth)
  | insertRecord (b : Birth)
  | insertEvent (b : Birth)
  | commit (b : Birth)
  | rollback (b : Birth)
  | readRecord (c : Creation)
  | readJob (c : Creation) (jobID : UUID)
  | returned (c : Creation) (o : Outcome)

/-- The first statement of a call. -/
def Creation.start : Creation → Stage
  | .submit s => .checkQueue s
  | .replay r => .beginReplay r

/-- A call goes on with what a statement gives it, or returns. -/
def goOn {α : Type} (c : Creation) (x : Tx α) (next : α → Stage) : Stage :=
  match x with
  | .ok a => next a
  | .error f => .returned c (.refused f)

namespace Stage

def creation : Stage → Creation
  | .checkQueue s | .beginSubmit s | .readSubmissionTime s => .submit s
  | .beginReplay r | .route r | .lockQueue r _ | .lockOriginal r | .readEntry r _
  | .readReplayTime r _ => .replay r
  | .insertJob b | .insertRecord b | .insertEvent b | .commit b | .rollback b => b.creation
  | .readRecord c | .readJob c _ | .returned c _ => c

/-- The statement is run on the committed rows `db`. A `COMMIT` is a step of its
own. -/
def next (db : DB) : Stage → Stage
  | .checkQueue s =>
    goOn (.submit s) (demand (db.queues.rows.any fun q => q.name == s.req.queue) .unknownQueue)
      fun _ => .beginSubmit s
  | .beginSubmit s => .readSubmissionTime s
  | .readSubmissionTime s => .insertJob (.submission s)
  | .beginReplay r => .route r
  | .route r =>
    goOn (.replay r) (fetch (jobInScope db r.scope r.originalJobID) .jobNotFound)
      fun original => .lockQueue r original.queue
  | .lockQueue r queue =>
    goOn (.replay r) (TaskForge.lockQueue db queue "lock queue for replay") fun _ => .lockOriginal r
  | .lockOriginal r =>
    goOn (.replay r)
      (do
        let original ← fetch (jobInScope db r.scope r.originalJobID) .jobNotFound
        demand (original.status == .deadLettered) .notDeadLettered
        pure original)
      fun original => .readEntry r original
  | .readEntry r original =>
    goOn (.replay r)
      (demand (db.dlqEntries.rows.any fun d => d.jobID == r.originalJobID) .notDeadLettered)
      fun _ => .readReplayTime r original
  | .readReplayTime r original => .insertJob (.replay r original)
  | .insertJob b => goOn b.creation (b.insertJob db) fun _ => .insertRecord b
  | .insertRecord b =>
    -- `ON CONFLICT DO NOTHING` returns no row: somebody else owns the identity.
    if db.records.any fun r => decide (r.identity = b.creation.identity) then .rollback b
    else goOn b.creation (b.insertRecord db) fun _ => .insertEvent b
  | .insertEvent b => goOn b.creation (b.insertEvent db) fun _ => .commit b
  | .commit b => .commit b
  | .rollback b => .readRecord b.creation
  | .readRecord c => goOn c (c.readRecord db) fun jobID => .readJob c jobID
  | .readJob c jobID => goOn c (getByID db c.scope jobID) fun job => .returned c (.found job)
  | .returned c o => .returned c o

/-! ### Rows that are not committed -/

/-- The job row a call has inserted. -/
def jobRow : Stage → Option Job
  | .insertRecord b | .insertEvent b | .commit b | .rollback b => some b.job
  | _ => none

def recordRow : Stage → Option Record
  | .insertEvent b | .commit b => some b.record
  | _ => none

def eventRow : Stage → Option OutboxEvent
  | .commit b => b.event
  | _ => none

/-- The statement need not wait for the transaction of `q`. -/
def passes : Stage → Stage → Bool
  | .insertJob b, q => q.jobRow.all fun j => !jobs.clash j b.job
  | .insertRecord b, q => q.recordRow.all fun r => !r.clash b.record
  | .insertEvent b, q => q.eventRow.all fun e => b.event.all fun e' => !outboxEvents.clash e e'
  | _, _ => true

/-- The call has returned. -/
def isReturned : Stage → Bool
  | .returned _ _ => true
  | _ => false

/-- There is a statement to run, other than `COMMIT`. -/
def isRunning : Stage → Bool
  | .commit _ | .returned _ _ => false
  | _ => true

end Stage

/-- What a call returns after its `COMMIT`. -/
def Birth.outcome (b : Birth) (told : Bool) : Outcome := if told then .made b.view else .broken

/-! ## The contest -/

/-- What is committed, and every call that was ever made. -/
structure Contest where
  world : World
  calls : List Stage

/-- What a call does. -/
inductive Act where
  | called (c : Creation)
  | statement
  /-- `COMMIT` takes effect; `told` says whether the call learns it. -/
  | committed (b : Birth) (told : Bool)
  | failed

/-- Who does something: a call, by its number, or the rest of the service. -/
inductive Actor where
  | call (n : ℕ) (act : Act)
  | service (t : Transition)

/-- A step, and what is committed before and after it. -/
structure Deed where
  before : World
  actor : Actor
  after : World

/-- The transaction is one of those that make jobs. -/
def Call.creates : Call → Bool
  | .submit .. | .replay .. => true
  | _ => false

def Transition.creates (t : Transition) : Bool :=
  match t.action with
  | .store l => l.request.call.creates
  | .outbox .. => false

/-- One step of the contest. -/
inductive ContestStep : Contest → Deed → Contest → Prop where
  | called {s : Contest} (c : Creation) :
      ContestStep s ⟨s.world, .call s.calls.length (.called c), s.world⟩
        ⟨s.world, s.calls ++ [c.start]⟩
  | statement {s : Contest} {n : ℕ} {p : Stage} (call : s.calls[n]? = some p)
      (running : p.isRunning = true) (free : (s.calls.eraseIdx n).all p.passes = true) :
      ContestStep s ⟨s.world, .call n .statement, s.world⟩
        ⟨s.world, s.calls.set n (p.next s.world.db)⟩
  /-- The rows of a call are there for everybody. If its deadline elapses meanwhile, or
  the reply is lost, the call returns as one that the database failed. -/
  | committed {s : Contest} {n : ℕ} {b : Birth} {db : DB} (told : Bool)
      (call : s.calls[n]? = some (.commit b)) (run : b.commit s.world.db = .ok db) :
      ContestStep s ⟨s.world, .call n (.committed b told), ⟨db, s.world.clock⟩⟩
        ⟨⟨db, s.world.clock⟩, s.calls.set n (.returned b.creation (b.outcome told))⟩
  /-- The database fails a call before anything of it is committed: its transaction is
  rolled back. -/
  | failed {s : Contest} {n : ℕ} {p : Stage} (call : s.calls[n]? = some p)
      (live : p.isReturned = false) :
      ContestStep s ⟨s.world, .call n .failed, s.world⟩
        ⟨s.world, s.calls.set n (.returned p.creation .broken)⟩
  /-- Another transaction of the service. It has waited for the rows it would clash
  with. -/
  | service {s : Contest} {t : Transition} {w : World} (step : ServiceStep s.world t w)
      (other : t.creates = false)
      (free : ∀ p ∈ s.calls, ∀ e, p.eventRow = some e →
        ∀ x ∈ w.db.outbox.rows, outboxEvents.clash x e = false) :
      ContestStep s ⟨s.world, .service t, w⟩ ⟨w, s.calls⟩

/-- Nobody has called, and there is no job. -/
structure Contest.Opening (s : Contest) : Prop where
  initial : Initial s.world
  calls : s.calls = []

end TaskForge
