/-
The operator's reads (`internal/jobs/list.go`, `dlq.go`, `internal/workers/list.go`,
`internal/results/store.go`).

Every read is one statement under a scope. Some of them name the scope in every
join (`ListAttempts`); others name it for the row they list and join the rest by id
alone (`ListDLQ`, `ListWorkers`), and what those show rests on whose rows the ids
lead to.

A page is asked for with a token. What the token holds is the service's business
(an instant and an id, or a name); how it is written down is left to `base64`,
`time` and `uuid`, which come in as a `Codec`. The order of names is the
database's collation, a total order.
-/
import TaskForge.Jobs
import TaskForge.Query

open Relational Fallible

namespace TaskForge

/-! ## Cursors -/

/-- The errors of a listing or a lookup. `ErrInvalidJobFilter` says which field it
refused, and the value. -/
inductive ReadError where
  | invalidStatus (status : String)
  | invalidQueue (queue : String)
  | invalidCursor
  | jobNotFound
  | resultNotFound
deriving DecidableEq, Repr

/-- What the cursors use of the standard library and of `uuid`:
`base64.RawURLEncoding`, `time.RFC3339Nano` (instants in nanoseconds), and a UUID's
text. -/
structure Codec where
  encodeToString : String → String
  decodeString : String → Option String
  formatTime : Int → String
  parseTime : String → Option Int
  formatUUID : UUID → String
  parseUUID : String → Option UUID

/-- `strings.Cut(s, "|")` -/
def cutBar (s : String) : Option (String × String) :=
  match s.toList.span (· != '|') with
  | (_, []) => none
  | (before, _ :: after) => some (String.ofList before, String.ofList after)

/-- `EncodeJobCursor`, and `EncodeDLQCursor` alike -/
def encodeTimeCursor (codec : Codec) (createdAt : Int) (id : UUID) : String :=
  codec.encodeToString (codec.formatTime createdAt ++ "|" ++ codec.formatUUID id)

/-- `decodeJobCursor`, and `decodeDLQCursor` alike -/
def decodeTimeCursor (codec : Codec) (cursor : String) : Except ReadError (Int × UUID) := do
  let raw ← orFail (codec.decodeString cursor) .invalidCursor
  let (stamp, rest) ← orFail (cutBar raw) .invalidCursor
  let createdAt ← orFail (codec.parseTime stamp) .invalidCursor
  let id ← orFail (codec.parseUUID rest) .invalidCursor
  pure (createdAt, id)

/-- `EncodeWorkerCursor` -/
def encodeWorkerCursor (codec : Codec) (name : String) : String := codec.encodeToString name

/-- `decodeWorkerCursor` -/
def decodeWorkerCursor (codec : Codec) (cursor : String) : Except ReadError String := do
  let name ← orFail (codec.decodeString cursor) .invalidCursor
  ensure (matchesName 127 name) .invalidCursor
  pure name

/-- An empty cursor asks for the first page. -/
def position {α : Type} (decode : String → Except ReadError α) (cursor : String) :
    Except ReadError (Option α) :=
  if cursor = "" then pure none else do
    let p ← decode cursor
    pure (some p)

/-- A time cursor as the statement compares it: the instant in the column's unit. -/
def timePosition (codec : Codec) (cursor : String) : Except ReadError (Option (Int × UUID)) := do
  let p ← position (decodeTimeCursor codec) cursor
  pure (p.map fun (createdAt, id) => (storeTime createdAt, id))

/-- `boundPage`, with the constants of the listing: jobs, dead letters and workers each
have their own. -/
def boundPage (default most : ℕ) (limit : Int) : ℕ :=
  if limit ≤ 0 then default else if (most : Int) < limit then most else limit.toNat

/-- `jobs.DefaultPageSize` -/
def defaultPageSize : ℕ := 25
/-- `jobs.MaxPageSize` -/
def maxPageSize : ℕ := 100
/-- `jobs.DefaultDLQPageSize` -/
def defaultDLQPageSize : ℕ := 25
/-- `jobs.MaxDLQPageSize` -/
def maxDLQPageSize : ℕ := 100
/-- `workers.DefaultPageSize` -/
def defaultWorkerPageSize : ℕ := 25
/-- `workers.MaxPageSize` -/
def maxWorkerPageSize : ℕ := 100

/-! ## Orders -/

/-- `(at, id)`, by columns -/
def timeOrder : SortOrder (Int × UUID) :=
  (SortOrder.asc Int).lex ((SortOrder.asc ℕ).comap BitVec.toNat uuid_injective)

/-- `ORDER BY at DESC, id DESC` -/
def newestFirst : SortOrder (Int × UUID) := timeOrder.reverse

def Job.keyset (j : Job) : Int × UUID := (j.createdAt, j.id)
def DLQEntry.keyset (d : DLQEntry) : Int × UUID := (d.createdAt, d.id)
def WorkerSession.keyset (s : WorkerSession) : Int × UUID := (s.registeredAt, s.id)

/-! ## Jobs -/

/-- `jobs.AllStatuses` -/
def allStatuses : List JobStatus :=
  [.pending, .queued, .leased, .running, .retryWait, .cancelRequested, .succeeded, .canceled,
    .deadLettered]

/-- A status as the column holds it. -/
def JobStatus.text : JobStatus → String
  | .pending => "PENDING"
  | .queued => "QUEUED"
  | .leased => "LEASED"
  | .running => "RUNNING"
  | .retryWait => "RETRY_WAIT"
  | .cancelRequested => "CANCEL_REQUESTED"
  | .succeeded => "SUCCEEDED"
  | .canceled => "CANCELED"
  | .deadLettered => "DEAD_LETTERED"

/-- `Status.Valid` -/
def isStatus (status : String) : Bool := allStatuses.any fun known => status == known.text

/-- `jobs.JobFilter` -/
structure JobFilter where
  status : String
  queue : String
deriving DecidableEq, Repr

/-- `JobFilter.Validate` -/
def JobFilter.validate (f : JobFilter) : Except ReadError Unit := do
  ensure (f.status == "" || isStatus f.status) (.invalidStatus f.status)
  ensure (f.queue == "" || matchesName 63 f.queue) (.invalidQueue f.queue)

/-- `jobs.JobSummary`: a job without its payload. -/
structure JobSummary where
  id : UUID
  queue : String
  type_ : String
  status : JobStatus
  priority : Int
  maxAttempts : Int
  timeoutSeconds : Int
  requiredCapabilities : List String
  scheduledAt : Option Int
  availableAt : Int
  cancelRequestedAt : Option Int
  replayedFromJobID : Option UUID
  createdAt : Int
  updatedAt : Int
deriving DecidableEq, Repr

def jobSummary (j : Job) : JobSummary where
  id := j.id
  queue := j.queue
  type_ := j.jobType
  status := j.status
  priority := j.priority
  maxAttempts := j.maxAttempts
  timeoutSeconds := j.timeoutSeconds
  requiredCapabilities := j.requiredCapabilities
  scheduledAt := j.scheduledAt.map goTime
  availableAt := goTime j.availableAt
  cancelRequestedAt := j.cancelRequestedAt.map goTime
  replayedFromJobID := j.replayedFromJobID
  createdAt := goTime j.createdAt
  updatedAt := goTime j.updatedAt

/-- The listing's `WHERE`, short of the cursor. -/
def isListed (scope : String) (filter : JobFilter) (j : Job) : Bool :=
  j.scope == scope && (filter.status == "" || j.status.text == filter.status) &&
    (filter.queue == "" || j.queue == filter.queue)

/-- `ListJobs` -/
def listJobs (codec : Codec) (db : DB) (scope : String) (filter : JobFilter) (cursor : String)
    (limit : Int) : Except ReadError (Page JobSummary) := do
  filter.validate
  let limit := boundPage defaultPageSize maxPageSize limit
  let after ← timePosition codec cursor
  let found := (listing newestFirst Job.keyset (isListed scope filter) after db.jobs.rows).take
    (limit + 1)
  pure (cutPage limit (fun j => encodeTimeCursor codec j.createdAt j.id) (found.map jobSummary))

/-! ## Attempts -/

/-- `jobs.Attempt` -/
structure AttemptView where
  id : UUID
  attemptNumber : ℕ
  status : AttemptStatus
  workerID : UUID
  workerName : String
  createdAt : Int
  startedAt : Option Int
  finishedAt : Option Int
  timeoutAt : Option Int
  failureClass : Option FailureClass
  errorCode : Option String
  errorMessage : Option String
  retryDelayMs : Option Int
  retryAt : Option Int
deriving DecidableEq, Repr

def attemptView (workerName : Option String) (a : JobAttempt) : AttemptView where
  id := a.id
  attemptNumber := a.attemptNumber
  status := a.status
  workerID := a.workerID
  workerName := workerName.getD ""
  createdAt := goTime a.createdAt
  startedAt := a.startedAt.map goTime
  finishedAt := a.finishedAt.map goTime
  timeoutAt := a.timeoutAt.map goTime
  failureClass := a.failureClass
  errorCode := a.errorCode
  errorMessage := a.errorMessage
  retryDelayMs := a.retryDelayMs
  retryAt := a.retryAt.map goTime

/-- `ListAttempts`: no row at all is an unknown job, one row without an attempt is a
job that was never attempted. -/
def listAttempts (db : DB) (scope : String) (jobID : UUID) :
    Except ReadError (List AttemptView) := do
  let j ← orFail (db.jobs.rows.find? fun j => j.id == jobID && j.scope == scope) .jobNotFound
  let joined := orderBy (SortOrder.asc ℕ) JobAttempt.attemptNumber
    (db.attempts.rows.filter fun a => a.jobID == j.id && a.scope == j.scope)
  pure (joined.map fun a =>
    attemptView ((db.workers.rows.find? fun w => w.id == a.workerID && w.scope == a.scope).map
      Worker.name) a)

/-! ## Dead letters -/

/-- `jobs.DLQEntry` -/
structure DLQEntryView where
  id : UUID
  jobID : UUID
  queue : String
  jobType : String
  priority : Int
  maxAttempts : Int
  reason : DLQReason
  createdAt : Int
  terminalAttemptID : Option UUID
  attemptNumber : Option ℕ
  attemptStatus : Option AttemptStatus
  failureClass : Option FailureClass
  errorCode : Option String
  errorMessage : Option String
  replayCount : ℕ
deriving DecidableEq, Repr

def dlqEntryView (d : DLQEntry) (j : Job) (a : Option JobAttempt) (replays : ℕ) :
    DLQEntryView where
  id := d.id
  jobID := d.jobID
  queue := d.queue
  jobType := j.jobType
  priority := j.priority
  maxAttempts := j.maxAttempts
  reason := d.reason
  createdAt := goTime d.createdAt
  terminalAttemptID := d.terminalAttemptID
  attemptNumber := a.map JobAttempt.attemptNumber
  attemptStatus := a.map JobAttempt.status
  failureClass := a.bind JobAttempt.failureClass
  errorCode := a.bind JobAttempt.errorCode
  errorMessage := a.bind JobAttempt.errorMessage
  replayCount := replays

/-- The entry with its job, its terminal attempt and the number of its replays, all
three found by id alone. -/
def joinEntry (db : DB) (d : DLQEntry) : Option DLQEntryView := do
  let j ← db.jobs.rows.find? fun j => j.id == d.jobID
  let a := db.attempts.rows.find? fun a => d.terminalAttemptID == some a.id
  some (dlqEntryView d j a (db.dlqReplays.count fun r => r.originalJobID == d.jobID))

/-- `ListDLQ` -/
def listDLQ (codec : Codec) (db : DB) (scope cursor : String) (limit : Int) :
    Except ReadError (Page DLQEntryView) := do
  let limit := boundPage defaultDLQPageSize maxDLQPageSize limit
  let after ← timePosition codec cursor
  let found := ((listing newestFirst DLQEntry.keyset (fun d => d.scope == scope) after
    db.dlqEntries.rows).filterMap (joinEntry db)).take (limit + 1)
  pure (cutPage limit (fun d => encodeTimeCursor codec d.createdAt d.id) found)

/-! ## Workers -/

/-- `workers.WorkerSummary`. The age of the last heartbeat is in the database's
unit. -/
structure WorkerSummary where
  id : UUID
  name : String
  status : SessionStatus
  workerGroup : String
  hostname : String
  concurrencyLimit : Int
  capabilities : List String
  supportedJobTypes : List String
  registeredAt : Int
  lastHeartbeatAt : Int
  endedAt : Option Int
  heartbeatAge : Int
  activeLeases : ℕ
deriving DecidableEq, Repr

def workerSummary (now : Int) (w : Worker) (s : WorkerSession) (activeLeases : ℕ) :
    WorkerSummary where
  id := w.id
  name := w.name
  status := s.status
  workerGroup := s.workerGroup
  hostname := s.hostname
  concurrencyLimit := s.concurrencyLimit
  capabilities := s.capabilities
  supportedJobTypes := s.supportedJobTypes
  registeredAt := goTime s.registeredAt
  lastHeartbeatAt := goTime s.lastHeartbeatAt
  endedAt := s.endedAt.map goTime
  heartbeatAge := max 0 (now - s.lastHeartbeatAt)
  activeLeases := activeLeases

/-- The worker with its latest session and the number of leases it holds, both found
by its id alone. A worker without a session is not listed. -/
def joinSession (now : Int) (db : DB) (w : Worker) : Option WorkerSummary := do
  let s ← (orderBy newestFirst WorkerSession.keyset
    (db.sessions.rows.filter fun s => s.workerID == w.id)).head?
  some (workerSummary now w s (db.leases.count fun l => l.workerID == w.id && l.status == .active))

/-- `ListWorkers`, at the instant `now` of `clock_timestamp()` -/
def listWorkers (codec : Codec) (collation : SortOrder String) (now : Int) (db : DB)
    (scope cursor : String) (limit : Int) : Except ReadError (Page WorkerSummary) := do
  let limit := boundPage defaultWorkerPageSize maxWorkerPageSize limit
  let after ← position (decodeWorkerCursor codec) cursor
  let found := ((listing collation Worker.name (fun w => w.scope == scope) after
    db.workers.rows).filterMap (joinSession now db)).take (limit + 1)
  pure (cutPage limit (fun w => encodeWorkerCursor codec w.name) found)

/-! ## Results -/

/-- `results.Result`, as it is read back: a column that is `NULL` is an empty
string. -/
structure ResultView where
  jobID : UUID
  attemptID : UUID
  scope : String
  location : Location
  inlineBody : Option String
  objectBucket : String
  objectKey : String
  sizeBytes : Int
  checksumSHA256 : String
  contentType : String
  createdAt : Int
deriving DecidableEq, Repr

def resultView (r : ResultRow) : ResultView where
  jobID := r.jobID
  attemptID := r.attemptID
  scope := r.scope
  location := r.location
  inlineBody := r.inlineBody
  objectBucket := r.objectBucket.getD ""
  objectKey := r.objectKey.getD ""
  sizeBytes := r.sizeBytes
  checksumSHA256 := r.checksumSHA256.getD ""
  contentType := r.contentType
  createdAt := goTime r.createdAt

/-- `results.Store.Get` -/
def getResult (db : DB) (scope : String) (jobID : UUID) : Except ReadError ResultView := do
  let r ← orFail (db.results.rows.find? fun r => r.jobID == jobID && r.scope == scope)
    .resultNotFound
  pure (resultView r)

end TaskForge
