/-
The credentials in front of the store: `internal/api/worker_auth.go` and
`resolveWorkerControlScope`.

A worker presents its key once, when it registers a session. The handler registers
under the scope of the key, and the session row names the key. Every later control
request names its session only: the handler reads the session's scope and key, asks
whether the key is revoked, and then calls the store with the scope it read. These are
three statements, and anything may commit between them, so a request is a `Visit` that
the steps of `GateStep` take from one to the next.

`Sealed` says what holds along every run: the key tables are what the creations and
revocations left, a session carries the key it was registered with and that key's
scope, and a visit carries what its session does. A check made after the revocation
therefore meets the revoked row, whatever has become of the session.
-/
import TaskForge.Credentials
import TaskForge.SessionLife
import TaskForge.ClaimRace

open Relational Runs

namespace TaskForge

/-! ## Requests under way -/

/-- The worker-control requests that present no key. -/
inductive Control where
  | heartbeat (req : HeartbeatRequest)
  | claim (req : ClaimRequest)
  | start (fence : Fence)
  | renewLease (req : RenewalRequest)
  | succeed (fence : Fence) (result : Option ResultRef)
  | fail (report : FailureReport)
  | acknowledgeCancellation (ack : CancelAcknowledgment)
deriving DecidableEq

/-- The session a request names. -/
def Control.sessionID : Control → UUID
  | .heartbeat req => req.sessionID
  | .claim req => req.sessionID
  | .start fence => fence.sessionID
  | .renewLease req => req.fence.sessionID
  | .succeed fence _ => fence.sessionID
  | .fail report => report.fence.sessionID
  | .acknowledgeCancellation ack => ack.fence.sessionID

/-- The store's method for a request, in a scope. -/
def Control.call (scope : String) : Control → Call
  | .heartbeat req => .heartbeat scope req
  | .claim req => .claim scope req
  | .start fence => .start scope fence
  | .renewLease req => .renewLease scope req
  | .succeed fence result => .succeed scope fence result
  | .fail report => .fail scope report
  | .acknowledgeCancellation ack => .acknowledgeCancellation scope ack

/-- The calls that a worker's requests make. -/
def Call.fromWorker : Call → Bool
  | .register .. | .heartbeat .. | .claim .. | .start .. | .renewLease .. | .succeed .. | .fail ..
  | .acknowledgeCancellation .. => true
  | _ => false

/-- `SessionScope`; `none` is `ErrSessionUnavailable`. -/
def sessionScope (db : DB) (sessionID : UUID) : Option (String × Option UUID) :=
  (db.sessions.rows.find? fun s => s.id == sessionID).map fun s => (s.scope, s.workerKeyID)

/-- How far a request has come: its key was accepted, its session was read, or it may
call the store. -/
inductive Visit where
  | enrolling (principal : Principal) (registration : Registration)
  | resolving (control : Control) (scope : String) (key : UUID)
  | cleared (control : Control) (scope : String)

/-- `resolveWorkerControlScope` after the read: a session without a key is cleared. -/
def Visit.resolved (control : Control) (scope : String) : Option UUID → Visit
  | none => .cleared control scope
  | some key => .resolving control scope key

inductive KeyKind where
  | api | worker
deriving DecidableEq

/-- The database, the two key stores, and the requests under way. -/
structure Gate where
  world : World
  apiKeys : KeyTable
  workerKeys : KeyTable
  visits : ℕ → Option Visit

namespace Gate

def keys (g : Gate) : KeyKind → KeyTable
  | .api => g.apiKeys
  | .worker => g.workerKeys

def setKeys (g : Gate) (t : KeyTable) : KeyKind → Gate
  | .api => { g with apiKeys := t }
  | .worker => { g with workerKeys := t }

theorem world_setKeys (g : Gate) (t : KeyTable) (kind : KeyKind) :
    (g.setKeys t kind).world = g.world := by cases kind <;> rfl

theorem visits_setKeys (g : Gate) (t : KeyTable) (kind : KeyKind) :
    (g.setKeys t kind).visits = g.visits := by cases kind <;> rfl

/-- Request `n` is now at `v`, or over. -/
def move (g : Gate) (n : ℕ) (v : Option Visit) : Gate :=
  { g with visits := Function.update g.visits n v }

/-- The store has worked, and request `n` is over. -/
def finish (g : Gate) (n : ℕ) (w : World) : Gate :=
  { g with world := w, visits := Function.update g.visits n none }

end Gate

/-! ## Steps -/

/-- What happens at the gate. -/
inductive GateEvent where
  | created (kind : KeyKind) (c : CreatedKey)
  | notCreated (kind : KeyKind)
  | revoked (kind : KeyKind) (id : UUID)
  | notRevoked (kind : KeyKind) (id : UUID)
  | other (l : Label)
  | presented (n : ℕ) (raw : String) (registration : Registration) (answer : Option Principal)
  | enrolled (n : ℕ) (l : Label)
  | arrived (n : ℕ) (control : Control)
  | unavailable (n : ℕ) (control : Control)
  | checked (n : ℕ) (live : Bool)
  | dispatched (n : ℕ) (control : Control) (l : Label)
  | dropped (n : ℕ)

/-- One statement of a handler, or one transaction of the store. -/
inductive GateStep (sha256 : String → String) : Gate → GateEvent → Gate → Prop where
  | created {g : Gate} {kind : KeyKind} {scope name : String} {draw : Draw} {c : CreatedKey}
      {t : KeyTable} (run : createTurn sha256 scope name draw (g.keys kind) = .ok (some (c, t))) :
      GateStep sha256 g (.created kind c) (g.setKeys t kind)
  -- refused, or the lookup segment collided
  | notCreated {g : Gate} {kind : KeyKind} {scope name : String} {draw : Draw}
      (run : ∀ r, createTurn sha256 scope name draw (g.keys kind) ≠ .ok (some r)) :
      GateStep sha256 g (.notCreated kind) g
  | revoked {g : Gate} {kind : KeyKind} {now : Int} {id : UUID} {r : RevokeResult} {t : KeyTable}
      (run : revokeKey now id (g.keys kind) = .ok (r, t)) :
      GateStep sha256 g (.revoked kind id) (g.setKeys t kind)
  | notRevoked {g : Gate} {kind : KeyKind} {now : Int} {id : UUID} {e : KeyError}
      (run : revokeKey now id (g.keys kind) = .error e) :
      GateStep sha256 g (.notRevoked kind id) g
  -- clients and reconciliation passes
  | other {g : Gate} {l : Label} {w : World} (call : l.request.call.fromWorker = false)
      (step : Step g.world l w) : GateStep sha256 g (.other l) { g with world := w }
  -- `requireWorkerKey`
  | admitted {g : Gate} {n : ℕ} {raw : String} {registration : Registration} {p : Principal}
      (free : g.visits n = none) (run : authenticate sha256 g.workerKeys raw = some p) :
      GateStep sha256 g (.presented n raw registration (some p))
        (g.move n (some (.enrolling p registration)))
  | turnedAway {g : Gate} {n : ℕ} {raw : String} {registration : Registration}
      (run : authenticate sha256 g.workerKeys raw = none) :
      GateStep sha256 g (.presented n raw registration none) g
  -- `handleRegisterWorkerSession`
  | enrolled {g : Gate} {n : ℕ} {p : Principal} {registration : Registration} {l : Label}
      {w : World} (visit : g.visits n = some (.enrolling p registration))
      (call : l.request.call =
        .register p.scope { registration with workerKeyID := some p.keyID })
      (step : Step g.world l w) : GateStep sha256 g (.enrolled n l) (g.finish n w)
  -- `resolveWorkerControlScope`
  | arrived {g : Gate} {n : ℕ} {control : Control} {scope : String} {key : Option UUID}
      (free : g.visits n = none)
      (run : sessionScope g.world.db control.sessionID = some (scope, key)) :
      GateStep sha256 g (.arrived n control) (g.move n (some (.resolved control scope key)))
  | unavailable {g : Gate} {n : ℕ} {control : Control}
      (run : sessionScope g.world.db control.sessionID = none) :
      GateStep sha256 g (.unavailable n control) g
  | cleared {g : Gate} {n : ℕ} {control : Control} {scope : String} {key : UUID}
      (visit : g.visits n = some (.resolving control scope key))
      (run : isRevoked g.workerKeys key = false) :
      GateStep sha256 g (.checked n true) (g.move n (some (.cleared control scope)))
  | unauthorized {g : Gate} {n : ℕ} {control : Control} {scope : String} {key : UUID}
      (visit : g.visits n = some (.resolving control scope key))
      (run : isRevoked g.workerKeys key = true) :
      GateStep sha256 g (.checked n false) (g.move n none)
  | dispatched {g : Gate} {n : ℕ} {control : Control} {scope : String} {l : Label} {w : World}
      (visit : g.visits n = some (.cleared control scope))
      (call : l.request.call = control.call scope) (step : Step g.world l w) :
      GateStep sha256 g (.dispatched n control l) (g.finish n w)
  -- a deadline, a lost connection, a crash
  | dropped {g : Gate} {n : ℕ} : GateStep sha256 g (.dropped n) (g.move n none)

/-- The creations and revocations of one kind of key. -/
def keyEvents (kind : KeyKind) (trace : List GateEvent) : List KeyEvent :=
  trace.filterMap fun
    | .created kind' c => if kind' = kind then some (.created c.key.id c.key.scope c.raw) else none
    | .revoked kind' id => if kind' = kind then some (.revoked id) else none
    | _ => none

/-- Before the first key: sessions that may be there name none. -/
structure Keyless (g : Gate) : Prop where
  apiKeys : g.apiKeys = .empty
  workerKeys : g.workerKeys = .empty
  visits : ∀ n, g.visits n = none
  sessions : ∀ s ∈ g.world.db.sessions.rows, s.workerKeyID = none

/-! ## What holds along every run -/

/-- A later row of the same session: what the credentials decided is as it was. -/
structure SameCredentials (s s' : WorkerSession) : Prop where
  id : s'.id = s.id
  scope : s'.scope = s.scope
  key : s'.workerKeyID = s.workerKeyID

/-- Every session of `db` is still there in `db'`. -/
def CredentialsKept (db db' : DB) : Prop :=
  ∀ s ∈ db.sessions.rows, ∃ s' ∈ db'.sessions.rows, SameCredentials s s'

theorem CredentialsKept.refl (db : DB) : CredentialsKept db db :=
  fun s hs => ⟨s, hs, rfl, rfl, rfl⟩

/-- The presentation that registered a session: a key of this id and scope was
created, and a text was accepted for it. -/
def Enrolled (past : List GateEvent) (sessionID key : UUID) (scope : String) : Prop :=
  (∃ n raw registration, .presented n raw registration (some ⟨key, scope⟩) ∈ past ∧
    registration.sessionID = sessionID) ∧
  ∃ raw, .created key scope raw ∈ keyEvents .worker past

/-- Where a session comes from: it was there before the first key, or it was registered
with a key and has that key's scope. -/
def Origin (g₀ : Gate) (past : List GateEvent) (s : WorkerSession) : Prop :=
  (s.workerKeyID = none ∧
    ∃ s₀ ∈ g₀.world.db.sessions.rows, s₀.id = s.id ∧ s₀.scope = s.scope) ∨
  ∃ key, s.workerKeyID = some key ∧ Enrolled past s.id key s.scope

/-- What a request under way carries is what was accepted, or what its session has. -/
def Visit.Grounded (past : List GateEvent) (db : DB) : Visit → Prop
  | .enrolling p registration => Enrolled past registration.sessionID p.keyID p.scope
  | .resolving control scope key =>
    ∃ s ∈ db.sessions.rows, s.id = control.sessionID ∧ s.scope = scope ∧ s.workerKeyID = some key
  | .cleared control scope =>
    ∃ s ∈ db.sessions.rows, s.id = control.sessionID ∧ s.scope = scope

/-- What holds after the events `past`, from `g₀`. -/
structure Sealed (sha256 : String → String) (g₀ : Gate) (past : List GateEvent) (g : Gate) : Prop where
  keys : ∀ kind, KeysRecorded sha256 (keyEvents kind past) (g.keys kind)
  sessions : ∀ s ∈ g.world.db.sessions.rows, Origin g₀ past s
  visits : ∀ {n v}, g.visits n = some v → v.Grounded past g.world.db

section Steps

variable {sha256 : String → String} {g₀ g g' : Gate} {past : List GateEvent} {d : GateEvent}
  {w w' : World} {l : Label} {db db' : DB}
variable {scope : String} {s s' : WorkerSession}

theorem keyEvents_append (kind : KeyKind) (past later : List GateEvent) :
    keyEvents kind (past ++ later) = keyEvents kind past ++ keyEvents kind later :=
  List.filterMap_append

theorem Enrolled.later {sessionID key : UUID} (h : Enrolled past sessionID key scope)
    (later : List GateEvent) : Enrolled (past ++ later) sessionID key scope := by
  obtain ⟨⟨n, raw, registration, hmem, hid⟩, raw', hcreated⟩ := h
  refine ⟨⟨n, raw, registration, List.mem_append_left _ hmem, hid⟩, raw', ?_⟩
  rw [keyEvents_append]
  exact List.mem_append_left _ hcreated

theorem Origin.later (h : Origin g₀ past s) (later : List GateEvent) :
    Origin g₀ (past ++ later) s := by
  rcases h with h | ⟨key, hkey, h⟩
  · exact .inl h
  · exact .inr ⟨key, hkey, h.later later⟩

theorem Origin.same (h : Origin g₀ past s) (hsame : SameCredentials s s') :
    Origin g₀ past s' := by
  rw [Origin, hsame.id, hsame.scope, hsame.key]
  exact h

theorem Visit.Grounded.later {v : Visit} (h : v.Grounded past db) (later : List GateEvent)
    (hkept : CredentialsKept db db') : v.Grounded (past ++ later) db' := by
  cases v with
  | enrolling p registration => exact Enrolled.later h later
  | resolving control scope key =>
    obtain ⟨s, hs, hid, hscope, hkey⟩ := h
    obtain ⟨s', hs', hsame⟩ := hkept s hs
    exact ⟨s', hs', hsame.id.trans hid, hsame.scope.trans hscope, hsame.key.trans hkey⟩
  | cleared control scope =>
    obtain ⟨s, hs, hid, hscope⟩ := h
    obtain ⟨s', hs', hsame⟩ := hkept s hs
    exact ⟨s', hs', hsame.id.trans hid, hsame.scope.trans hscope⟩

theorem Becomes.sameCredentials {env : Env} {call : Call} (h : Becomes env s call s') :
    SameCredentials s s' :=
  ⟨h.aged.id, h.aged.scope, h.workerKey⟩

theorem Step.credentialsKept (h : Step w l w') : CredentialsKept w.db w'.db := by
  intro s hs
  obtain ⟨s', hs', hb⟩ := h.commit.becomes hs
  exact ⟨s', hs', hb.sameCredentials⟩

/-- A session of the next state was there, or is the one a registration wrote. -/
theorem Step.session_origin (h : Step w l w') (hs' : s' ∈ w'.db.sessions.rows) :
    (∃ s ∈ w.db.sessions.rows, SameCredentials s s') ∨
      ∃ scope registration, l.request.call = .register scope registration ∧
        s'.id = registration.sessionID ∧ s'.scope = scope ∧
        s'.workerKeyID = registration.workerKeyID := by
  rcases h.commit.born hs' with ⟨s, hs, hb⟩ | ⟨scope, registration, reg, wid, hcall, hvalid, rfl⟩
  · exact .inl ⟨s, hs, hb.sameCredentials⟩
  · refine .inr ⟨scope, registration, hcall, ?_, rfl, ?_⟩
    · rw [newSession, normalizeRegistration_out hvalid]
    · rw [newSession, normalizeRegistration_out hvalid]

theorem sessionScope_eq_some {id : UUID} {key : Option UUID}
    (h : sessionScope db id = some (scope, key)) :
    ∃ s ∈ db.sessions.rows, s.id = id ∧ s.scope = scope ∧ s.workerKeyID = key := by
  obtain ⟨s, hf, hs⟩ := Option.map_eq_some_iff.mp h
  cases hs
  obtain ⟨hfm, hsel⟩ := found_of_find? hf
  exact ⟨s, hfm, beq_iff_eq.mp hsel, rfl, rfl⟩

/-- The frame of a step: it leaves every session it finds, and adds to the key stores,
the sessions and the requests only what it can answer for. -/
theorem Sealed.step (h : Sealed sha256 g₀ past g)
    (hkeys : ∀ kind, KeysRecorded sha256 (keyEvents kind (past ++ [d])) (g'.keys kind))
    (hkept : CredentialsKept g.world.db g'.world.db)
    (hsessions : ∀ s' ∈ g'.world.db.sessions.rows,
      (∃ s ∈ g.world.db.sessions.rows, SameCredentials s s') ∨ Origin g₀ (past ++ [d]) s')
    (hvisits : ∀ {n v}, g'.visits n = some v →
      g.visits n = some v ∨ v.Grounded (past ++ [d]) g'.world.db) :
    Sealed sha256 g₀ (past ++ [d]) g' := by
  refine ⟨hkeys, fun s' hs' => ?_, fun hv => ?_⟩
  · rcases hsessions s' hs' with ⟨s, hs, hsame⟩ | horigin
    · exact ((h.sessions s hs).later [d]).same hsame
    · exact horigin
  · rcases hvisits hv with hold | hnew
    · exact (h.visits hold).later [d] hkept
    · exact hnew

/-- A step that leaves the key stores alone. -/
theorem Sealed.keys_later (h : Sealed sha256 g₀ past g) (hkeys : g'.keys = g.keys)
    (hidle : ∀ kind, keyEvents kind [d] = []) (kind : KeyKind) :
    KeysRecorded sha256 (keyEvents kind (past ++ [d])) (g'.keys kind) := by
  rw [keyEvents_append, hidle, List.append_nil, hkeys]
  exact h.keys kind

/-- A step of the store that registers nothing new. -/
theorem sessions_of_step (hstep : Step w l w')
    (hcall : ∀ scope registration, l.request.call ≠ .register scope registration) :
    ∀ s' ∈ w'.db.sessions.rows, (∃ s ∈ w.db.sessions.rows, SameCredentials s s') ∨
      Origin g₀ (past ++ [d]) s' := by
  intro s' hs'
  rcases hstep.session_origin hs' with hold | ⟨scope, registration, hreg, -⟩
  · exact .inl hold
  · exact absurd hreg (hcall scope registration)

/-- The sessions are as they were. -/
theorem sessions_of_eq : ∀ s' ∈ db.sessions.rows, (∃ s ∈ db.sessions.rows, SameCredentials s s') ∨
    Origin g₀ (past ++ [d]) s' :=
  fun s' hs' => .inl ⟨s', hs', rfl, rfl, rfl⟩

/-- A step that changes one key store, and does what it says. -/
theorem Sealed.setKeys (h : Sealed sha256 g₀ past g) {kind : KeyKind} {t : KeyTable}
    {e : KeyEvent} (hd : ∀ kind', keyEvents kind' [d] = if kind = kind' then [e] else [])
    (hrecorded : KeysRecorded sha256 (keyEvents kind past ++ [e]) t) :
    Sealed sha256 g₀ (past ++ [d]) (g.setKeys t kind) := by
  refine h.step (fun kind' => ?_) ?_ ?_ ?_
  · rw [keyEvents_append, hd]
    by_cases hkind : kind = kind'
    · subst hkind
      rw [if_pos rfl]
      cases kind <;> exact hrecorded
    · have hother : (g.setKeys t kind).keys kind' = g.keys kind' := by
        cases kind <;> cases kind' <;> first | rfl | exact absurd rfl hkind
      rw [if_neg hkind, List.append_nil, hother]
      exact h.keys kind'
  · rw [Gate.world_setKeys]
    exact .refl _
  · rw [Gate.world_setKeys]
    exact sessions_of_eq
  · rw [Gate.visits_setKeys]
    exact fun hv => .inl hv

/-- **What holds at the gate is kept by every step.** -/
theorem GateStep.sealed (hs : GateStep sha256 g d g') (h : Sealed sha256 g₀ past g) :
    Sealed sha256 g₀ (past ++ [d]) g' := by
  cases hs with
  | @created kind scope name draw c t run =>
    obtain ⟨k, hrows, hkey, -, hholds, hlive⟩ := createTurn_eq_ok run
    have hrecorded := (h.keys kind).create hrows hholds hlive
    refine h.setKeys (e := .created c.key.id c.key.scope c.raw) (fun kind' => ?_) ?_
    · by_cases hkind : kind = kind' <;> simp [keyEvents, hkind]
    · rw [hkey]
      exact hrecorded
  | notCreated | notRevoked | turnedAway | unavailable =>
    exact h.step (h.keys_later rfl fun _ => rfl) (.refl _) sessions_of_eq fun hv => .inl hv
  | @revoked kind now id r t run =>
    refine h.setKeys (e := .revoked id) (fun kind' => ?_) ((h.keys kind).revoke run)
    by_cases hkind : kind = kind' <;> simp [keyEvents, hkind]
  | @other l w call step =>
    refine h.step (h.keys_later rfl fun _ => rfl) step.credentialsKept ?_ fun hv => .inl hv
    exact sessions_of_step step fun scope registration hreg => by rw [hreg] at call; cases call
  | @admitted n raw registration p free run =>
    refine h.step (h.keys_later rfl fun _ => rfl) (.refl _) sessions_of_eq fun {m v} hv => ?_
    rcases update_eq_some.mp hv with ⟨-, hnew⟩ | ⟨-, hold⟩
    · cases hnew
      -- The row that let the text in was written by a creation.
      obtain ⟨presented, -, k, hk, -, -, -, rfl⟩ := authenticate_eq_some.mp run
      obtain ⟨raw', -, hcreated⟩ := (h.keys .worker).rows k hk
      refine .inr ⟨⟨n, raw, registration, ?_, rfl⟩, raw', ?_⟩
      · exact List.mem_append_right _ List.mem_cons_self
      · rw [keyEvents_append]
        exact List.mem_append_left _ hcreated
    · exact .inl hold
  | @enrolled n p registration l w visit call step =>
    refine h.step (h.keys_later rfl fun _ => rfl) step.credentialsKept (fun s' hs' => ?_)
      fun hv => .inl (of_update_none hv)
    · rcases step.session_origin hs' with hold | ⟨scope, reg, hreg, hid, hscope, hkey⟩
      · exact .inl hold
      · -- The session is written with the key that was accepted, and in its scope.
        rw [call] at hreg
        cases hreg
        have henrolled : Enrolled past registration.sessionID p.keyID p.scope := h.visits visit
        refine .inr (.inr ⟨p.keyID, hkey, ?_⟩)
        rw [hid, hscope]
        exact henrolled.later _
  | @arrived n control scope key free run =>
    refine h.step (h.keys_later rfl fun _ => rfl) (.refl _) sessions_of_eq fun {m v} hv => ?_
    rcases update_eq_some.mp hv with ⟨-, hnew⟩ | ⟨-, hold⟩
    · cases hnew
      obtain ⟨s, hs, hid, hscope, hkey⟩ := sessionScope_eq_some run
      cases key with
      | none => exact .inr ⟨s, hs, hid, hscope⟩
      | some key => exact .inr ⟨s, hs, hid, hscope, hkey⟩
    · exact .inl hold
  | @cleared n control scope key visit run =>
    refine h.step (h.keys_later rfl fun _ => rfl) (.refl _) sessions_of_eq fun {m v} hv => ?_
    rcases update_eq_some.mp hv with ⟨-, hnew⟩ | ⟨-, hold⟩
    · cases hnew
      obtain ⟨s, hs, hid, hscope, -⟩ := h.visits visit
      exact .inr ⟨s, hs, hid, hscope⟩
    · exact .inl hold
  | unauthorized | dropped =>
    exact h.step (h.keys_later rfl fun _ => rfl) (.refl _) sessions_of_eq fun hv =>
      .inl (of_update_none hv)
  | @dispatched n control scope l w visit call step =>
    refine h.step (h.keys_later rfl fun _ => rfl) step.credentialsKept ?_ fun hv =>
      .inl (of_update_none hv)
    refine sessions_of_step step fun scope' registration hreg => ?_
    rw [call] at hreg
    cases control <;> cases hreg

end Steps

/-! ## Runs -/

section Runs

variable {sha256 : String → String} {g₀ g g' : Gate} {trace past later : List GateEvent} {d : GateEvent}
  {n : ℕ} {control : Control} {scope : String} {s : WorkerSession} {key : UUID}

theorem Keyless.sealed (h : Keyless g) : Sealed sha256 g [] g := by
  refine ⟨fun kind => ?_, fun s hs => .inl ⟨h.sessions s hs, s, hs, rfl, rfl⟩, fun {n v} hv => ?_⟩
  · cases kind with
    | api =>
      rw [Gate.keys, h.apiKeys]
      exact .empty
    | worker =>
      rw [Gate.keys, h.workerKeys]
      exact .empty
  · rw [h.visits n] at hv
    cases hv

theorem Sealed.run (h : Sealed sha256 g₀ past g) (hrun : Run (GateStep sha256) g later g') :
    Sealed sha256 g₀ (past ++ later) g' :=
  hrun.history (P := Sealed sha256 g₀) (fun h hs => hs.sealed h) h

/-- The key a request is checked for is its session's. -/
theorem Sealed.checks (h : Sealed sha256 g₀ past g) {k : UUID}
    (hv : g.visits n = some (.resolving control scope k)) (hs : s ∈ g.world.db.sessions.rows)
    (hid : control.sessionID = s.id) : s.workerKeyID = some k := by
  obtain ⟨t, ht, htid, -, hkey⟩ := h.visits hv
  rw [g.world.db.session_eq_of_id hs ht (hid.symm.trans htid.symm)]
  exact hkey

/-- A request is cleared at a step only if its session has no key, or one that is not
revoked then. -/
theorem Sealed.clears (h : Sealed sha256 g₀ past g) (hs : GateStep sha256 g d g')
    (hv : g'.visits n = some (.cleared control scope)) :
    g.visits n = some (.cleared control scope) ∨
      ∃ s ∈ g.world.db.sessions.rows, s.id = control.sessionID ∧
        ∀ key, s.workerKeyID = some key → isRevoked g.workerKeys key = false := by
  cases hs with
  | created | revoked =>
    rw [Gate.visits_setKeys] at hv
    exact .inl hv
  | notCreated run => exact .inl hv
  | notRevoked | other => exact .inl hv
  | admitted free run =>
    rcases update_eq_some.mp hv with ⟨-, hnew⟩ | ⟨-, hold⟩
    · cases hnew
    · exact .inl hold
  | turnedAway run => exact .inl hv
  | enrolled visit call step => exact .inl (of_update_none hv)
  | @arrived m control scope key free run =>
    rcases update_eq_some.mp hv with ⟨-, hnew⟩ | ⟨-, hold⟩
    · obtain ⟨s, hs, hid, -, hkey⟩ := sessionScope_eq_some run
      cases key with
      | none =>
        cases hnew
        exact .inr ⟨s, hs, hid, fun key hsome => by rw [hkey] at hsome; cases hsome⟩
      | some key => cases hnew
    · exact .inl hold
  | unavailable run => exact .inl hv
  | @cleared m control scope key visit run =>
    rcases update_eq_some.mp hv with ⟨-, hnew⟩ | ⟨-, hold⟩
    · cases hnew
      obtain ⟨s, hs, hid, -, hkey⟩ := h.visits visit
      refine .inr ⟨s, hs, hid, fun key' hkey' => ?_⟩
      rw [hkey] at hkey'
      cases hkey'
      exact run
    · exact .inl hold
  | unauthorized | dispatched | dropped => exact .inl (of_update_none hv)

/-- The sessions that a run finds keep what the credentials decided. -/
theorem GateStep.credentialsKept (hs : GateStep sha256 g d g') :
    CredentialsKept g.world.db g'.world.db := by
  cases hs with
  | created | revoked =>
    rw [Gate.world_setKeys]
    exact .refl _
  | other call step => exact step.credentialsKept
  | enrolled visit call step => exact step.credentialsKept
  | dispatched visit call step => exact step.credentialsKept
  | _ => exact .refl _

/-- The session `id` has a key that is revoked, and every request on it that may call
the store could already at `g`. -/
structure ShutSince (g : Gate) (id key : UUID) (past : List GateEvent) (g' : Gate) : Prop where
  session : ∃ s ∈ g'.world.db.sessions.rows, s.id = id ∧ s.workerKeyID = some key
  revoked : .revoked key ∈ keyEvents .worker past
  visits : ∀ {n control scope}, g'.visits n = some (.cleared control scope) →
    control.sessionID = id → g.visits n = some (.cleared control scope)

theorem ShutSince.step {g₁ g₂ : Gate} {id : UUID} (h : ShutSince g id key past g₁)
    (hsealed : Sealed sha256 g₀ past g₁) (hs : GateStep sha256 g₁ d g₂) :
    ShutSince g id key (past ++ [d]) g₂ := by
  obtain ⟨s, hsmem, hid, hkey⟩ := h.session
  refine ⟨?_, ?_, fun {n control scope} hv hcontrol => ?_⟩
  · obtain ⟨s', hs', hsame⟩ := hs.credentialsKept s hsmem
    exact ⟨s', hs', hsame.id.trans hid, hsame.key.trans hkey⟩
  · rw [keyEvents_append]
    exact List.mem_append_left _ h.revoked
  · rcases hsealed.clears hs hv with hold | ⟨t, ht, htid, hlive⟩
    · exact h.visits hold hcontrol
    · -- It would be this session, whose key is revoked.
      have hts : t = s :=
        g₁.world.db.session_eq_of_id ht hsmem (htid.trans (hcontrol.trans hid.symm))
      have hfound : isRevoked g₁.workerKeys key = true :=
        (hsealed.keys .worker).isRevoked h.revoked
      rw [hts] at hlive
      exact Bool.noConfusion ((hlive key hkey).symm.trans hfound)

/-- A control request calls the store only if it was cleared before the revocation. -/
theorem Sealed.dispatched (h : Sealed sha256 g₀ past g) (hs : s ∈ g.world.db.sessions.rows)
    (hkey : s.workerKeyID = some key) (hrevoked : .revoked key ∈ keyEvents .worker past)
    (hrun : Run (GateStep sha256) g later g') {l : Label} (hmem : .dispatched n control l ∈ later)
    (hid : control.sessionID = s.id) : ∃ scope, g.visits n = some (.cleared control scope) := by
  obtain ⟨pre, post, g₁, g₂, -, hpre, hstep, -⟩ := hrun.exists_step_of_mem hmem
  have hstart : Sealed sha256 g₀ past g ∧ ShutSince g s.id key past g :=
    ⟨h, ⟨s, hs, rfl, hkey⟩, hrevoked, fun hv _ => hv⟩
  have hshut := hpre.history
    (P := fun past g₁ => Sealed sha256 g₀ past g₁ ∧ ShutSince g s.id key past g₁)
    (fun h hs => ⟨hs.sealed h.1, h.2.step h.1 hs⟩) hstart
  cases hstep with
  | dispatched visit call step => exact ⟨_, hshut.2.visits visit hid⟩

/-- **Credentials decide the scope.** After every run: a text is accepted with a scope
exactly when it is a key created for it that is not revoked, for each kind of key; every
session has the scope of the key it was registered with; and once that key is revoked, a
check answers 401 and ends the request with nothing written, so that no request on the
session calls the store that was not cleared before. -/
theorem credentials_decide (hopen : Keyless g₀) (hrun : Run (GateStep sha256) g₀ trace g) :
    (∀ kind raw scope, CollisionFree sha256 (raw :: minted (keyEvents kind trace)) →
      ((∃ id, authenticate sha256 (g.keys kind) raw = some ⟨id, scope⟩) ↔
        ∃ id, .created id scope raw ∈ keyEvents kind trace ∧
          .revoked id ∉ keyEvents kind trace)) ∧
    (∀ s ∈ g.world.db.sessions.rows, Origin g₀ trace s ∧
      ∀ key scope raw, s.workerKeyID = some key →
        .created key scope raw ∈ keyEvents .worker trace → scope = s.scope) ∧
    (∀ s ∈ g.world.db.sessions.rows, ∀ key, s.workerKeyID = some key →
      .revoked key ∈ keyEvents .worker trace →
      (∀ n control scope k, g.visits n = some (.resolving control scope k) →
        control.sessionID = s.id →
        GateStep sha256 g (.checked n false) (g.move n none) ∧
          ∀ live g', GateStep sha256 g (.checked n live) g' → live = false ∧ g' = g.move n none) ∧
      ∀ later g', Run (GateStep sha256) g later g' →
        ∀ n control l, .dispatched n control l ∈ later → control.sessionID = s.id →
          ∃ scope, g.visits n = some (.cleared control scope)) := by
  have hsealed : Sealed sha256 g₀ trace g := hopen.sealed.run hrun
  refine ⟨fun kind raw scope hfree => ?_, fun s hs => ⟨hsealed.sessions s hs, ?_⟩, ?_⟩
  · exact exists_congr fun id => (hsealed.keys kind).authenticate hfree
  · intro key scope raw hkey hcreated
    rcases hsealed.sessions s hs with ⟨hnone, -⟩ | ⟨key', hkey', -, raw', hcreated'⟩
    · rw [hkey] at hnone
      cases hnone
    · rw [hkey] at hkey'
      cases hkey'
      exact (hsealed.keys .worker).scope_unique hcreated hcreated'
  · intro s hs key hkey hrevoked
    have hfound : isRevoked g.workerKeys key = true := (hsealed.keys .worker).isRevoked hrevoked
    refine ⟨fun n control scope k hv hid => ?_, fun later g' hlater n control l hmem hid =>
      hsealed.dispatched hs hkey hrevoked hlater hmem hid⟩
    have hk : k = key := Option.some.inj ((hsealed.checks hv hs hid).symm.trans hkey)
    subst hk
    refine ⟨.unauthorized hv hfound, fun live g' hstep => ?_⟩
    cases hstep with
    | cleared visit run =>
      rw [hv] at visit
      cases visit
      exact Bool.noConfusion (run.symm.trans hfound)
    | unauthorized visit run => exact ⟨rfl, rfl⟩

end Runs

/-- A digest that tells the secrets of the two keys below apart. -/
def sampleDigest (secret : String) : String :=
  if secret.toList.head? = some 'A' then
    "0000000000000000000000000000000000000000000000000000000000000000"
  else "1111111111111111111111111111111111111111111111111111111111111111"

/-- The row of the key `9`, drawn as zeros, and of the key `8`, drawn as ones. -/
def sampleKeyRow : KeyRow :=
  ⟨9, "tenant", "worker", "AAAAAAAAAAAAAAAAAAAAAA", sampleDigest "A", 0, none⟩

def otherKeyRow : KeyRow :=
  ⟨8, "neighbour", "worker", "_____________________w", sampleDigest "", 0, none⟩

def sampleKeys : KeyTable := ⟨[sampleKeyRow], by decide, by decide⟩

def bothKeys : KeyTable := ⟨[sampleKeyRow, otherKeyRow], by decide, by decide⟩

def revokedKeys : KeyTable :=
  ⟨[{ sampleKeyRow with revokedAt := some 5 }, otherKeyRow], by decide, by decide⟩

def sampleCreated : CreatedKey :=
  ⟨scanKey sampleKeyRow,
    "tfk_AAAAAAAAAAAAAAAAAAAAAA.AAAAAAAAAAAAAAAAAAAAAAAAAAAAAAAAAAAAAAAAAAA"⟩

def otherCreated : CreatedKey :=
  ⟨scanKey otherKeyRow,
    "tfk______________________w.__________________________________________8"⟩

/-- A registration with the key, and what the store is then asked. -/
def sampleRegistration : Registration := ⟨7, "worker", "host", "workers", 2, [], ["email"], none⟩

def sampleEnroll : Request :=
  ⟨envAt 1 1 0, .register "tenant" { sampleRegistration with workerKeyID := some 9 }⟩

/-- Two keys are created, a session is registered with the first, that key is revoked, and a
heartbeat of the session arrives. -/
def sampleVisit : List GateEvent :=
  [.created .worker sampleCreated, .created .worker otherCreated,
    .presented 0 sampleCreated.raw sampleRegistration (some ⟨9, "tenant"⟩),
    .enrolled 0 (quiet.step sampleEnroll).1, .revoked .worker 9, .arrived 1 (.heartbeat ⟨1, 7⟩)]

theorem sampleDigest_collisionFree {raws : List String}
    (h : ∀ raw ∈ raws, raw = sampleCreated.raw ∨ raw = otherCreated.raw) :
    CollisionFree sampleDigest raws := by
  have hpairs : ∀ x ∈ [sampleCreated.raw, otherCreated.raw],
      ∀ y ∈ [sampleCreated.raw, otherCreated.raw],
      ((parseKey x).all fun p => (parseKey y).all fun q =>
        decide (sampleDigest p.secret = sampleDigest q.secret → p.secret = q.secret)) = true := by
    decide +kernel
  intro x hx y hy p q hp hq
  have hpair := hpairs x (by simpa using h x hx) y (by simpa using h y hy)
  rw [hp, hq] at hpair
  exact of_decide_eq_true hpair

/-- The first key no longer lets anybody in, the second does, with its own scope. And the
heartbeat after the revocation is answered 401, though its session is healthy. -/
theorem credentials_decide_revoked : ∃ g, Keyless ⟨quiet, .empty, .empty, fun _ => none⟩ ∧
    Run (GateStep sampleDigest) ⟨quiet, .empty, .empty, fun _ => none⟩ sampleVisit g ∧
    (∀ scope, ¬ ∃ id,
      authenticate sampleDigest (g.keys .worker) sampleCreated.raw = some ⟨id, scope⟩) ∧
    (∃ id,
      authenticate sampleDigest (g.keys .worker) otherCreated.raw = some ⟨id, "neighbour"⟩) ∧
    (∃ s ∈ g.world.db.sessions.rows, s.id = 7 ∧ s.workerKeyID = some 9 ∧ s.status = .healthy) ∧
    ∀ live g', GateStep sampleDigest g (.checked 1 live) g' → live = false ∧ g' = g.move 1 none := by
  have hcreate : createTurn sampleDigest "tenant" "worker" ⟨List.replicate 48 0, 9, 0⟩ .empty =
      .ok (some (sampleCreated, sampleKeys)) := by decide +kernel
  have hother : createTurn sampleDigest "neighbour" "worker" ⟨List.replicate 48 255, 8, 0⟩
      sampleKeys = .ok (some (otherCreated, bothKeys)) := by decide +kernel
  have hauth : authenticate sampleDigest bothKeys sampleCreated.raw = some ⟨9, "tenant"⟩ := by
    decide +kernel
  have hrevoke : revokeKey 5 9 bothKeys =
      .ok (⟨scanKey { sampleKeyRow with revokedAt := some 5 }, false⟩, revokedKeys) := by
    decide +kernel
  have hstep := @World.step_step quiet sampleEnroll (by decide)
  obtain ⟨hscope, s, hs, hid, hkey, hstatus⟩ :
      sessionScope (quiet.step sampleEnroll).2.db 7 = some ("tenant", some 9) ∧
      ∃ s ∈ (quiet.step sampleEnroll).2.db.sessions.rows,
        s.id = 7 ∧ s.workerKeyID = some 9 ∧ s.status = .healthy := by decide +kernel
  have hopen : Keyless ⟨quiet, .empty, .empty, fun _ => none⟩ :=
    ⟨rfl, rfl, fun _ => rfl, fun s hs => absurd hs List.not_mem_nil⟩
  have hrun : Run (GateStep sampleDigest) ⟨quiet, .empty, .empty, fun _ => none⟩ sampleVisit _ :=
    .cons (@GateStep.created _ _ .worker _ _ _ _ _ hcreate) <|
      .cons (@GateStep.created _ _ .worker _ _ _ _ _ hother) <|
        .cons (.admitted rfl hauth) <| .cons (.enrolled rfl rfl hstep) <|
          .cons (@GateStep.revoked _ _ .worker _ _ _ _ hrevoke) <| .cons (.arrived rfl hscope) <|
            .nil _
  have hlog : keyEvents .worker sampleVisit = [.created 9 "tenant" sampleCreated.raw,
      .created 8 "neighbour" otherCreated.raw, .revoked 9] := rfl
  have hminted : minted (keyEvents .worker sampleVisit) = [sampleCreated.raw, otherCreated.raw] := rfl
  have hrevoked : .revoked 9 ∈ keyEvents .worker sampleVisit := by decide
  obtain ⟨haccept, -, hshut⟩ := credentials_decide hopen hrun
  refine ⟨_, hopen, hrun, fun scope hin => ?_, ?_, ⟨s, hs, hid, hkey, hstatus⟩, ?_⟩
  · obtain ⟨id, hcreated, hlive⟩ := (haccept .worker sampleCreated.raw scope
      (sampleDigest_collisionFree (by rw [hminted]; simp))).mp hin
    have hnine : id = 9 ∧ scope = "tenant" := by
      rw [hlog] at hcreated
      simpa [show sampleCreated.raw ≠ otherCreated.raw by decide] using hcreated
    exact hlive (hnine.1 ▸ hrevoked)
  · exact (haccept .worker otherCreated.raw "neighbour"
      (sampleDigest_collisionFree (by rw [hminted]; simp))).mpr ⟨8, by decide, by decide⟩
  · exact ((hshut s hs 9 hkey hrevoked).1 1 (.heartbeat ⟨1, 7⟩) "tenant" 9 rfl hid.symm).2

end TaskForge
