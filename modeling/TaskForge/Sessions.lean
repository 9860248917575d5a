/-
Worker sessions: `Register`, `Heartbeat` and `markSessionStale`
(`internal/workers/store.go`, `heartbeat.go`, `reconcile.go`).

These are the only transactions that write `workers` or `worker_sessions`, and
they write nothing else. Between them they keep one promise, which the rest of
the development uses: a session row is never removed, never changes whose it is,
and never comes back. Its status stays as it is, or leaves the current ones for
good (`Outlived`).
-/
import TaskForge.Reconcile

open Relational Fallible

namespace TaskForge

/-! ## Registration -/

/-- `ON CONFLICT (scope, name) DO UPDATE SET updated_at` -/
def touchedWorker (now : Int) (w : Worker) : Worker := { w with updatedAt := now }

/-- The upsert of the logical worker: its id, and the table. -/
def upsertWorker (env : Env) (scope name : String) (t : Table workers) :
    Tx (UUID × Table workers) :=
  match t.rows.find? fun w => w.scope == scope && w.name == name with
  | some w => do
    let t' ← updateRows .workers t (fun w => w.scope == scope && w.name == name)
      (touchedWorker env.clock.s₀) (reported "upsert logical worker")
    pure (w.id, t')
  | none => do
    let t' ← insertRow .workers t ⟨env.id₁, scope, name, env.clock.start, env.clock.start⟩
      (reported "upsert logical worker")
    pure (env.id₁, t')

/-- A session row and its worker's name, as the API shows them. -/
def sessionView (name : String) (s : WorkerSession) : Session where
  id := s.id
  workerID := s.workerID
  name := name
  hostname := s.hostname
  workerGroup := s.workerGroup
  concurrencyLimit := s.concurrencyLimit
  capabilities := s.capabilities
  supportedJobTypes := s.supportedJobTypes
  status := s.status
  registeredAt := s.registeredAt
  lastHeartbeatAt := s.lastHeartbeatAt

/-- `readSessionForUpdate` -/
def readSessionForUpdate (workers : Table workers) (sessions : Table workerSessions) (id : UUID) :
    Option Session := do
  let s ← sessions.rows.find? fun s => s.id == id
  let w ← workers.rows.find? fun w => w.id == s.workerID
  some (sessionView w.name s)

/-- `sameRegistration` -/
def sameRegistration (existing : Session) (workerID : UUID) (reg : Registration) : Bool :=
  existing.id == reg.sessionID && existing.workerID == workerID && existing.name == reg.name &&
    existing.hostname == reg.hostname && existing.workerGroup == reg.workerGroup &&
    existing.concurrencyLimit == reg.concurrencyLimit &&
    existing.capabilities == reg.capabilities &&
    existing.supportedJobTypes == reg.supportedJobTypes

/-- The fencing of a prior session. -/
def fencedSession (now : Int) (s : WorkerSession) : WorkerSession :=
  { s with status := .offline, endedAt := some now }

/-- The session row a first registration writes. -/
def newSession (scope : String) (workerID : UUID) (reg : Registration) (now : Int) :
    WorkerSession where
  id := reg.sessionID
  workerID := workerID
  scope := scope
  hostname := reg.hostname
  workerGroup := reg.workerGroup
  concurrencyLimit := reg.concurrencyLimit
  capabilities := reg.capabilities
  supportedJobTypes := reg.supportedJobTypes
  status := .healthy
  registeredAt := now
  lastHeartbeatAt := now
  endedAt := none
  workerKeyID := reg.workerKeyID

/-- `Register`, once it is known that the session is new. -/
def registerNew (env : Env) (scope : String) (reg : Registration) (workerID : UUID)
    (workers : Table workers) (db : DB) : Tx (Session × DB) := do
  let fenced ← updateRows .workerSessions db.sessions
    (fun s => s.workerID == workerID && isCurrentSessionStatus s.status)
    (fencedSession env.clock.s₁) (reported "fence prior worker session")
  let row := newSession scope workerID reg env.clock.s₂
  let sessions ← insertRow .workerSessions fenced row
    (onUnique .sessionConflict "insert worker session")
  pure (sessionView reg.name row, { db with workers := workers, sessions := sessions })

/-- `Register` on the session it read, or on a new one. -/
def registerRead (env : Env) (scope : String) (reg : Registration) (workerID : UUID)
    (workers : Table workers) (db : DB) : Option Session → Tx (Session × DB)
  | some existing => do
    demand (sameRegistration existing workerID reg) .sessionConflict
    demand (existing.status == .healthy) .sessionUnavailable
    pure (existing, { db with workers := workers })
  | none => registerNew env scope reg workerID workers db

/-- `Store.Register` -/
def register (env : Env) (scope : String) (registration : Registration) (db : DB) :
    Tx (Session × DB) := do
  let reg ← checked (normalizeRegistration registration) .validation
  let (workerID, workers) ← upsertWorker env scope reg.name db.workers
  registerRead env scope reg workerID workers db
    (readSessionForUpdate workers db.sessions reg.sessionID)

/-! ## Heartbeats -/

/-- `maxCancellationDirectives` -/
def maxCancellationDirectives : ℕ := 256

/-- `ORDER BY cancel_requested_at, attempt id` -/
def directiveBefore (x y : CancellationDirective) : Bool :=
  decide (x.cancelRequestedAt < y.cancelRequestedAt) ||
    (x.cancelRequestedAt == y.cancelRequestedAt && decide (x.attemptID ≤ y.attemptID))

/-- `cancellationDirectives` -/
def cancellationDirectives (db : DB) (sessionID : UUID) (limit : ℕ) :
    List CancellationDirective :=
  let found := db.attempts.rows.filterMap fun a => do
    guard (a.workerSessionID = sessionID ∧ isExecutingAttemptStatus a.status)
    let j ← db.jobs.rows.find? fun j => j.id == a.jobID
    let l ← db.leases.rows.find? fun l => l.attemptID == a.id
    guard (j.status = .cancelRequested ∧ l.status = .active)
    let requested ← j.cancelRequestedAt
    some ⟨a.jobID, a.id, l.id, requested⟩
  (found.mergeSort directiveBefore).take limit

/-- `GREATEST(last_heartbeat_at, $2)` -/
def beatSession (now : Int) (s : WorkerSession) : WorkerSession :=
  { s with lastHeartbeatAt := max s.lastHeartbeatAt now }

/-- `Store.Heartbeat` -/
def heartbeat (env : Env) (scope : String) (req : HeartbeatRequest) (db : DB) :
    Tx (HeartbeatResult × DB) := do
  validate (validateHeartbeat req)
  let session ← fetch
    (db.sessions.rows.find? (sessionMatches req.sessionID req.workerID scope)) .sessionUnavailable
  demand (session.status == .healthy) .sessionUnavailable
  let row ← updateReturning .workerSessions db.sessions
    (fun s => s.id == req.sessionID && s.status == .healthy) (beatSession env.clock.s₀)
    .sessionUnavailable (reported "record worker heartbeat")
  pure (⟨req.sessionID, .healthy, row.1.lastHeartbeatAt,
    cancellationDirectives db req.sessionID maxCancellationDirectives⟩,
    { db with sessions := row.2 })

/-! ## Stale sessions -/

/-- `markSessionStale`'s update. -/
def staleSession (now : Int) (s : WorkerSession) : WorkerSession :=
  { s with status := .unhealthy, endedAt := some now }

/-- A current session whose last heartbeat is older than `staleAfter`. -/
def isStale (staleAfter now : Int) (s : WorkerSession) : Bool :=
  isCurrentSessionStatus s.status &&
    decide (goTime s.lastHeartbeatAt < goTime now - staleAfter)

/-- `markSessionStale` -/
def markSessionStale (env : Env) (id : UUID) (staleAfter : Int) (db : DB) : Tx (Bool × DB) :=
  match db.sessions.rows.find? fun s => s.id == id with
  | none => pure (false, db)
  | some session =>
    if isStale staleAfter env.clock.s₀ session then do
      let sessions ← updateOne .workerSessions db.sessions
        (fun s => s.id == id && isCurrentSessionStatus s.status) (staleSession env.clock.s₀)
        .skipped (reported "mark worker session unhealthy")
      pure (true, { db with sessions := sessions })
    else pure (false, db)

/-! ## What they keep -/

/-- Only `workers` and `worker_sessions` differ. -/
structure SessionsOnly (db db' : DB) : Prop where
  queues : db'.queues = db.queues
  jobs : db'.jobs = db.jobs
  attempts : db'.attempts = db.attempts
  leases : db'.leases = db.leases
  outbox : db'.outbox = db.outbox
  idempotency : db'.idempotency = db.idempotency
  dlqEntries : db'.dlqEntries = db.dlqEntries
  dlqReplays : db'.dlqReplays = db.dlqReplays
  results : db'.results = db.results

theorem SessionsOnly.caseFile {db db' : DB} (h : SessionsOnly db db') (id : UUID) :
    db'.caseFile id = db.caseFile id := by
  unfold DB.caseFile
  rw [h.jobs, h.attempts, h.leases, h.outbox, h.dlqEntries, h.results]

/-- What a session row may become: it keeps its identity, and its status unless
it stops being current. -/
structure Outlived (s s' : WorkerSession) : Prop where
  id : s'.id = s.id
  worker : s'.workerID = s.workerID
  scope : s'.scope = s.scope
  group : s'.workerGroup = s.workerGroup
  registered : s'.registeredAt = s.registeredAt
  status : s'.status = s.status ∨ isCurrentSessionStatus s'.status = false

theorem Outlived.refl (s : WorkerSession) : Outlived s s :=
  ⟨rfl, rfl, rfl, rfl, rfl, .inl rfl⟩

/-- Every session row of `db` is still there, outlived at most. -/
def SessionsKept (db db' : DB) : Prop :=
  ∀ s ∈ db.sessions.rows, ∃ s' ∈ db'.sessions.rows, Outlived s s'

theorem SessionsKept.of_eq {db db' : DB} (h : db'.sessions = db.sessions) : SessionsKept db db' :=
  fun s hs => ⟨s, h ▸ hs, .refl s⟩

/-- A session that is not healthy never is again. -/
theorem Outlived.not_healthy {s s' : WorkerSession} (h : Outlived s s')
    (hs : s.status ≠ .healthy) : s'.status ≠ .healthy := by
  intro hs'
  rcases h.status with heq | hcur
  · exact hs (heq.symm.trans hs')
  · rw [hs'] at hcur
    cases hcur

theorem Outlived.trans {s t u : WorkerSession} (h : Outlived s t) (h' : Outlived t u) :
    Outlived s u := by
  refine ⟨h'.id.trans h.id, h'.worker.trans h.worker, h'.scope.trans h.scope,
    h'.group.trans h.group, h'.registered.trans h.registered, ?_⟩
  rcases h'.status with heq | hcur
  · rw [heq]
    exact h.status
  · exact .inr hcur

/-- Rewriting some rows to rows they may become keeps every session. -/
theorem sessionsKept_of_update {db db' : DB} {f : WorkerSession → WorkerSession}
    {more : List WorkerSession} (h : db'.sessions.rows = db.sessions.rows.map f ++ more)
    (hf : ∀ s ∈ db.sessions.rows, Outlived s (f s)) : SessionsKept db db' := by
  intro s hs
  refine ⟨f s, ?_, hf s hs⟩
  rw [h]
  exact List.mem_append_left _ (List.mem_map_of_mem hs)

section Spec

variable {env : Env} {db db' : DB} {scope : String} {f : Failure}
variable {name : String} {t : Table workers} {wid id : UUID} {registration reg : Registration}
  {s s' : WorkerSession} {req : HeartbeatRequest} {staleAfter : Int}

/-! ### Registration -/

/-- The worker rows after an upsert. -/
structure Upserted (scope : String) (wid : UUID) (rows rows' : List Worker) : Prop where
  named : ∃ w ∈ rows', w.id = wid ∧ w.scope = scope
  kept : ∀ w ∈ rows, ∃ w' ∈ rows', w'.id = w.id ∧ w'.scope = w.scope
  others : ∀ w : Worker, w.scope ≠ scope → (w ∈ rows' ↔ w ∈ rows)

/-- The worker an upsert names is there, in its scope; no worker is lost, and none
of another scope is touched. -/
theorem upsertWorker_eq_ok {t' : Table workers}
    (h : upsertWorker env scope name t = .ok (wid, t')) : Upserted scope wid t.rows t'.rows := by
  unfold upsertWorker at h
  cases hf : t.rows.find? fun w => w.scope == scope && w.name == name with
  | some w =>
    simp only [hf, bind_eq_ok, pure_eq_ok, Prod.mk.injEq] at h
    obtain ⟨t₁, hupd, rfl, rfl⟩ := h
    obtain ⟨hfm, hw⟩ := found_of_find? hf
    rw [Bool.and_eq_true, beq_iff_eq] at hw
    have hrows := Table.update_rows (orRefused_eq_ok.mp hupd)
    have hkept : ∀ x ∈ t.rows, ∃ x' ∈ t₁.rows, x'.id = x.id ∧ x'.scope = x.scope := by
      intro x hx
      refine ⟨_, by rw [hrows]; exact List.mem_map_of_mem hx, ?_⟩
      split <;> exact ⟨rfl, rfl⟩
    obtain ⟨w', hw', hid, hscope⟩ := hkept w hfm
    refine ⟨⟨w', hw', hid, hscope.trans hw.1⟩, hkept, fun x hx => ?_⟩
    -- The update selects by scope, so a row of another scope is its own image only.
    rw [hrows, List.mem_map]
    constructor
    · rintro ⟨y, hy, heq⟩
      split_ifs at heq with hp
      · rw [Bool.and_eq_true, beq_iff_eq] at hp
        exact absurd (by rw [← heq]; exact hp.1) hx
      · exact heq ▸ hy
    · intro hmem
      refine ⟨x, hmem, if_neg ?_⟩
      rw [Bool.and_eq_true, beq_iff_eq]
      exact fun hp => hx hp.1
  | none =>
    simp only [hf, bind_eq_ok, pure_eq_ok, Prod.mk.injEq] at h
    obtain ⟨t₁, hins, rfl, rfl⟩ := h
    have hrows := insertRow_eq_ok hins
    refine ⟨⟨_, by rw [hrows]; exact List.mem_concat_self, rfl, rfl⟩,
      ?_, ?_⟩
    · intro x hx
      exact ⟨x, by rw [hrows]; exact List.mem_append_left _ hx, rfl, rfl⟩
    · intro x hx
      rw [hrows, List.mem_append, List.mem_singleton]
      refine ⟨?_, .inl⟩
      rintro (hmem | rfl)
      · exact hmem
      · exact absurd rfl hx

/-- The sessions after a registration: either its session was there, healthy, and
nothing moved; or it is new, and every current session of its worker is
offline. -/
inductive RegisteredSessions (env : Env) (scope : String) (reg : Registration) (wid : UUID)
    (db db' : DB) : Prop where
  | replayed (s : WorkerSession) (mem : s ∈ db.sessions.rows) (id : s.id = reg.sessionID)
      (worker : s.workerID = wid) (healthy : s.status = .healthy)
      (same : db'.sessions = db.sessions)
  | fresh (rows : db'.sessions.rows = (db.sessions.rows.map fun s =>
      if s.workerID == wid && isCurrentSessionStatus s.status then fencedSession env.clock.s₁ s
      else s) ++ [newSession scope wid reg env.clock.s₂])

theorem register_eq_ok {r : Session} (h : register env scope registration db = .ok (r, db')) :
    ∃ reg wid, normalizeRegistration registration = .ok reg ∧ r.id = reg.sessionID ∧
      r.workerID = wid ∧ SessionsOnly db db' ∧
      Upserted scope wid db.workers.rows db'.workers.rows ∧
      RegisteredSessions env scope reg wid db db' := by
  simp only [register, bind_eq_ok, checked_eq_ok] at h
  obtain ⟨reg, hreg, ⟨wid, ws⟩, hup, hrest⟩ := h
  have hworkers := upsertWorker_eq_ok hup
  cases hread : readSessionForUpdate ws db.sessions reg.sessionID with
  | some existing =>
    simp only [hread, registerRead, bind_eq_ok, demand_eq_ok, pure_eq_ok, Prod.mk.injEq,
      sameRegistration, Bool.and_eq_true, beq_iff_eq] at hrest
    obtain ⟨-, ⟨⟨⟨⟨⟨⟨⟨hid, hw⟩, -⟩, -⟩, -⟩, -⟩, -⟩, -⟩, -, hstatus, rfl, rfl⟩ := hrest
    simp only [readSessionForUpdate, Option.bind_eq_bind, Option.bind_eq_some_iff,
      Option.some.injEq] at hread
    obtain ⟨s, hs, w, -, rfl⟩ := hread
    exact ⟨reg, wid, hreg, hid, hw, ⟨rfl, rfl, rfl, rfl, rfl, rfl, rfl, rfl, rfl⟩, hworkers,
      .replayed s (List.mem_of_find?_eq_some hs) hid hw hstatus rfl⟩
  | none =>
    simp only [hread, registerRead, registerNew, bind_eq_ok, pure_eq_ok, Prod.mk.injEq] at hrest
    obtain ⟨fenced, hfence, sessions', hins, rfl, rfl⟩ := hrest
    refine ⟨reg, wid, hreg, rfl, rfl, ⟨rfl, rfl, rfl, rfl, rfl, rfl, rfl, rfl, rfl⟩, hworkers,
      .fresh ?_⟩
    have hrows := insertRow_eq_ok hins
    rw [Table.update_rows (orRefused_eq_ok.mp hfence)] at hrows
    exact hrows

/-- After a registration its session is there, healthy, and it is its worker's. -/
theorem RegisteredSessions.current (h : RegisteredSessions env scope reg wid db db') :
    ∃ s ∈ db'.sessions.rows, s.id = reg.sessionID ∧ s.workerID = wid ∧ s.status = .healthy := by
  cases h with
  | replayed s mem id worker healthy same => exact ⟨s, same ▸ mem, id, worker, healthy⟩
  | fresh rows =>
    refine ⟨newSession scope wid reg env.clock.s₂, ?_, rfl, rfl, rfl⟩
    rw [rows]
    exact List.mem_concat_self

theorem RegisteredSessions.kept (h : RegisteredSessions env scope reg wid db db') :
    SessionsKept db db' := by
  cases h with
  | replayed s mem id worker healthy same => exact .of_eq same
  | fresh rows =>
    refine sessionsKept_of_update rows fun s _ => ?_
    split
    · exact ⟨rfl, rfl, rfl, rfl, rfl, .inr rfl⟩
    · exact .refl s

/-- What can refuse a registration: the worker's row; the fencing of the worker's
current session; or the new session, and then no session of its id has a worker. -/
inductive RegisterRefused (env : Env) (scope : String) (reg : Registration) (db : DB)
    (f : Failure) : Prop where
  | worker (refused : upsertWorker env scope reg.name db.workers = .error f)
  | fencing (s : WorkerSession) (mem : s ∈ db.sessions.rows)
      (refused : UpdateRefused .workerSessions db.sessions s (fencedSession env.clock.s₁ s) f)
  | session (wid : UUID) (fenced : Table workerSessions)
      (rows : fenced.rows = db.sessions.rows.map fun s =>
        if s.workerID == wid && isCurrentSessionStatus s.status then fencedSession env.clock.s₁ s
        else s)
      (unknown : ∀ s ∈ db.sessions.rows, s.id = reg.sessionID →
        ∀ w ∈ db.workers.rows, w.id ≠ s.workerID)
      (refused : InsertRefused .workerSessions fenced (newSession scope wid reg env.clock.s₂) f)

theorem upsertWorker_error (h : upsertWorker env scope name t = .error f) :
    ∃ v, f.cause = .schema .workers v := by
  unfold upsertWorker at h
  cases hf : t.rows.find? fun w => w.scope == scope && w.name == name with
  | some w =>
    simp only [hf, bind_eq_error, pure_ne_error, and_false, exists_false, or_false] at h
    obtain ⟨v, -, rfl⟩ := orRefused_eq_error.mp h
    exact ⟨v, rfl⟩
  | none =>
    simp only [hf, bind_eq_error, pure_ne_error, and_false, exists_false, or_false] at h
    exact (insertRow_eq_error h).1

theorem register_forced (hf : f.cause ≠ .check)
    (h : register env scope registration db = .error f) :
    ∃ reg, normalizeRegistration registration = .ok reg ∧ RegisterRefused env scope reg db f := by
  simp only [register, bind_eq_error, checked_forced hf, checked_eq_ok, false_or] at h
  obtain ⟨reg, hreg, hup | ⟨⟨wid, ws⟩, hup, hrest⟩⟩ := h
  · exact ⟨reg, hreg, .worker hup⟩
  refine ⟨reg, hreg, ?_⟩
  have hworkers := upsertWorker_eq_ok hup
  cases hread : readSessionForUpdate ws db.sessions reg.sessionID with
  | some existing =>
    simp only [hread, registerRead, bind_eq_error, demand_forced hf, pure_ne_error, and_false,
      exists_false, or_false] at hrest
  | none =>
    simp only [hread, registerRead, registerNew, bind_eq_error, pure_ne_error, and_false,
      exists_false, or_false] at hrest
    rcases hrest with hfence | ⟨fenced, hfence, hins⟩
    · -- A worker has at most one current session, so the fencing touches at most one row.
      by_cases hcur : ∃ s ∈ db.sessions.rows,
          (s.workerID == wid && isCurrentSessionStatus s.status) = true
      · obtain ⟨s, hs, hp⟩ := hcur
        refine .fencing s hs (updateRows_eq_error hp (fun x hx hpx => ?_) hfence)
        rw [Bool.and_eq_true, beq_iff_eq] at hp hpx
        exact db.session_eq_of_current hx hs hpx.2 hp.2 (hpx.1.trans hp.1.symm)
      · rw [updateRows_of_none fun x hx => ?_] at hfence
        · cases hfence
        · rw [Bool.eq_false_iff]
          exact fun hp => hcur ⟨x, hx, hp⟩
    · refine .session wid fenced (Table.update_rows (orRefused_eq_ok.mp hfence)) ?_
        (insertRow_eq_error hins)
      intro s hs hid w hw hwid
      obtain ⟨w', hw', hwid', -⟩ := hworkers.kept w hw
      have hfs : (db.sessions.rows.find? fun s => s.id == reg.sessionID) = some s := by
        refine find?_eq_some_of_unique hs (beq_iff_eq.mpr hid) fun x hx hp => ?_
        exact db.session_eq_of_id hx hs ((beq_iff_eq.mp hp).trans hid.symm)
      cases hfw : ws.rows.find? fun w => w.id == s.workerID with
      | none =>
        exact List.find?_eq_none.mp hfw w' hw' (beq_iff_eq.mpr (hwid'.trans hwid))
      | some w₁ => simp [readSessionForUpdate, hfs, hfw] at hread

/-! ### One session -/

/-- One session row was rewritten, and nothing else. -/
structure SessionMoved (db db' : DB) (s s' : WorkerSession) : Prop where
  only : SessionsOnly db db'
  workers : db'.workers = db.workers
  mem : s ∈ db.sessions.rows
  rows : db'.sessions.rows = replaceRow s s' db.sessions.rows

theorem SessionMoved.kept (h : SessionMoved db db' s s') (hs : Outlived s s') :
    SessionsKept db db' := by
  have hrows : db'.sessions.rows
      = (db.sessions.rows.map fun x => if x = s then s' else x) ++ [] := by
    rw [h.rows, List.append_nil]
    rfl
  refine sessionsKept_of_update hrows fun x _ => ?_
  split
  · next hx => exact hx ▸ hs
  · exact .refl x

theorem SessionMoved.new_mem (h : SessionMoved db db' s s') :
    s' ∈ db'.sessions.rows := by
  rw [h.rows]
  exact mem_replaceRow.mpr (.inr ⟨rfl, h.mem⟩)

/-- A statement keyed by a session's id selects that session or nothing. -/
theorem session_pk {q : WorkerSession → Bool} (hs : s ∈ db.sessions.rows) (hid : s.id = id) :
    ∀ x ∈ db.sessions.rows, (x.id == id && q x) = true → x = s := by
  intro x hx hp
  rw [Bool.and_eq_true, beq_iff_eq] at hp
  exact db.session_eq_of_id hx hs (hp.1.trans hid.symm)

theorem heartbeat_eq_ok {r : HeartbeatResult} (h : heartbeat env scope req db = .ok (r, db')) :
    ∃ s, s.id = req.sessionID ∧ s.scope = scope ∧ s.status = .healthy ∧
      SessionMoved db db' s (beatSession env.clock.s₀ s) := by
  simp only [heartbeat, bind_eq_ok, validate_eq_ok, fetch_eq_ok, demand_eq_ok, pure_eq_ok,
    Prod.mk.injEq, beq_iff_eq] at h
  obtain ⟨-, -, s, hs, -, hstatus, ⟨new, sessions'⟩, hupd, -, rfl⟩ := h
  obtain ⟨hmem, hsp⟩ := found_of_find? hs
  simp only [sessionMatches, Bool.and_eq_true, beq_iff_eq] at hsp
  obtain ⟨-, -, hrows⟩ := updateReturning_eq_ok (session_pk hmem hsp.1.1) hupd
  exact ⟨s, hsp.1.1, hsp.2, hstatus, ⟨rfl, rfl, rfl, rfl, rfl, rfl, rfl, rfl, rfl⟩, rfl, hmem,
    hrows⟩

theorem heartbeat_forced (hf : f.cause ≠ .check) (h : heartbeat env scope req db = .error f) :
    ∃ s ∈ db.sessions.rows,
      UpdateRefused .workerSessions db.sessions s (beatSession env.clock.s₀ s) f := by
  simp only [heartbeat, bind_eq_error, validate_forced hf, fetch_forced hf, demand_forced hf,
    validate_eq_ok, fetch_eq_ok, demand_eq_ok, pure_ne_error, and_false, exists_false, or_false,
    false_or, beq_iff_eq] at h
  obtain ⟨-, -, s, hs, -, hstatus, hupd⟩ := h
  obtain ⟨hmem, hsp⟩ := found_of_find? hs
  simp only [sessionMatches, Bool.and_eq_true, beq_iff_eq] at hsp
  exact ⟨s, hmem, updateReturning_eq_error hmem (by simp [hsp.1.1, hstatus])
    (session_pk hmem hsp.1.1) hupd⟩

theorem markSessionStale_eq_ok {r : Bool}
    (h : markSessionStale env id staleAfter db = .ok (r, db')) :
    (r = false ∧ db' = db) ∨
      (r = true ∧ ∃ s, s.id = id ∧ isStale staleAfter env.clock.s₀ s = true ∧
        SessionMoved db db' s (staleSession env.clock.s₀ s)) := by
  unfold markSessionStale at h
  cases hs : db.sessions.rows.find? fun s => s.id == id with
  | none =>
    rw [hs] at h
    obtain ⟨rfl, rfl⟩ := Prod.mk.inj (pure_eq_ok.mp h)
    exact .inl ⟨rfl, rfl⟩
  | some s =>
    simp only [hs, ite_eq_ok, bind_eq_ok, pure_eq_ok, Prod.mk.injEq] at h
    have hid : s.id = id := by simpa using List.find?_some hs
    have hmem := List.mem_of_find?_eq_some hs
    rcases h with ⟨hstale, sessions', hupd, rfl, rfl⟩ | ⟨-, rfl, rfl⟩
    · obtain ⟨-, hrows⟩ := updateOne_eq_ok (session_pk hmem hid) hupd
      exact .inr ⟨rfl, s, hid, hstale, ⟨rfl, rfl, rfl, rfl, rfl, rfl, rfl, rfl, rfl⟩, rfl, hmem,
        hrows⟩
    · exact .inl ⟨rfl, rfl⟩

theorem markSessionStale_forced (h : markSessionStale env id staleAfter db = .error f) :
    ∃ s ∈ db.sessions.rows,
      UpdateRefused .workerSessions db.sessions s (staleSession env.clock.s₀ s) f := by
  unfold markSessionStale at h
  cases hs : db.sessions.rows.find? fun s => s.id == id with
  | none =>
    rw [hs] at h
    exact absurd h pure_ne_error.mp
  | some s =>
    simp only [hs, ite_eq_error, bind_eq_error, pure_ne_error, and_false, exists_false,
      or_false] at h
    obtain ⟨hstale, hupd⟩ := h
    have hid : s.id = id := by simpa using List.find?_some hs
    have hmem := List.mem_of_find?_eq_some hs
    rw [isStale, Bool.and_eq_true] at hstale
    exact ⟨s, hmem, updateOne_eq_error hmem (by simp [hid, hstale.1]) (session_pk hmem hid) hupd⟩

end Spec

end TaskForge
