/-
The life of a worker session, over whole runs.

A session is born HEALTHY, is beaten forward, and ends once: fenced by the next
registration of its worker, or marked stale. `Becomes` says once what a committed
call makes of a session row, and `Commit.born` where the rows of the next state
come from; everything below is read off these two. An ended session stays ended, an
end is written exactly when the status stops being current, and the stored time of
the last heartbeat only grows (`Aged`), so it bounds every heartbeat that committed:
a session that is marked stale has had none in the window
(`Step.stale`, `Execution.beats`).

The second half is about registering a session again. The store compares the row it
reads with the normalised registration, list against list. Both lists are written in
increasing order (`WorkerSession.Orderly`), so the comparison is one of sets: blanks,
order and repetitions make no difference (`sameSession_iff`).
-/
import TaskForge.Admission

open Relational Fallible

namespace TaskForge

/-! ## What a call makes of a session -/

/-- What a committed call makes of the session row `s`. -/
inductive Becomes (env : Env) (s : WorkerSession) : Call → WorkerSession → Prop where
  | same (call : Call) : Becomes env s call s
  | fenced (scope : String) (registration : Registration) :
      Becomes env s (.register scope registration) (fencedSession env.clock.s₁ s)
  | beat (scope : String) (req : HeartbeatRequest) (session : s.id = req.sessionID) :
      Becomes env s (.heartbeat scope req) (beatSession env.clock.s₀ s)
  | staled (staleAfter : Int) (stale : isStale staleAfter env.clock.s₀ s = true) :
      Becomes env s (.markSessionStale s.id staleAfter) (staleSession env.clock.s₀ s)

/-- A session row later in a run: outlived, and beaten forward. -/
structure Aged (s s' : WorkerSession) : Prop extends Outlived s s' where
  beat : s.lastHeartbeatAt ≤ s'.lastHeartbeatAt

theorem Aged.refl (s : WorkerSession) : Aged s s := ⟨.refl s, le_rfl⟩

theorem Aged.trans {s t u : WorkerSession} (h : Aged s t) (h' : Aged t u) : Aged s u :=
  ⟨h.toOutlived.trans h'.toOutlived, h.beat.trans h'.beat⟩

/-- An ended session stays ended. -/
theorem Outlived.over {s s' : WorkerSession} (h : Outlived s s')
    (hs : isCurrentSessionStatus s.status = false) : isCurrentSessionStatus s'.status = false := by
  rcases h.status with heq | hcur
  · rw [heq]
    exact hs
  · exact hcur

/-- What the store's own writes leave true of a session row: it has an end exactly
when it is not current, and its sets are in increasing order. -/
structure WorkerSession.Orderly (s : WorkerSession) : Prop where
  ended : s.endedAt.isSome = true ↔ isCurrentSessionStatus s.status = false
  capabilities : s.capabilities.SortedLT
  jobTypes : s.supportedJobTypes.SortedLT

section Calls

variable {env : Env} {db db' : DB} {call : Call} {s s' : WorkerSession}

theorem Becomes.aged (h : Becomes env s call s') : Aged s s' := by
  cases h with
  | same => exact .refl s
  | fenced | staled => exact ⟨⟨rfl, rfl, rfl, rfl, rfl, .inr rfl⟩, le_rfl⟩
  | beat scope req session => exact ⟨⟨rfl, rfl, rfl, rfl, rfl, .inl rfl⟩, le_max_left _ _⟩

/-- No call gives a session another key. -/
theorem Becomes.workerKey (h : Becomes env s call s') : s'.workerKeyID = s.workerKeyID := by
  cases h <;> rfl

theorem Becomes.orderly (h : Becomes env s call s') (hs : s.Orderly) : s'.Orderly := by
  cases h with
  | same => exact hs
  | fenced | staled => exact ⟨⟨fun _ => rfl, fun _ => rfl⟩, hs.capabilities, hs.jobTypes⟩
  | beat scope req session => exact ⟨hs.ended, hs.capabilities, hs.jobTypes⟩

/-- One rewritten row: every other row is as it was. -/
theorem SessionMoved.becomes {t t' : WorkerSession} (h : SessionMoved db db' t t')
    (ht : Becomes env t call t') (hs : s ∈ db.sessions.rows) :
    ∃ s' ∈ db'.sessions.rows, Becomes env s call s' := by
  by_cases hst : s = t
  · rw [hst]
    exact ⟨t', h.new_mem, ht⟩
  · refine ⟨s, ?_, .same call⟩
    rw [h.rows, mem_replaceRow]
    exact .inl ⟨hs, hst⟩

theorem SessionMoved.born {t t' : WorkerSession} (h : SessionMoved db db' t t')
    (ht : Becomes env t call t') (hs' : s' ∈ db'.sessions.rows) :
    ∃ s ∈ db.sessions.rows, Becomes env s call s' := by
  rw [h.rows, mem_replaceRow] at hs'
  rcases hs' with ⟨hs', -⟩ | ⟨rfl, hmem⟩
  · exact ⟨s', hs', .same call⟩
  · exact ⟨t, hmem, ht⟩

/-- **Every session row of the old state is there in the new one.** -/
theorem Commit.becomes (h : Commit env db db' call) (hs : s ∈ db.sessions.rows) :
    ∃ s' ∈ db'.sessions.rows, Becomes env s call s' := by
  cases h with
  | unchanged call same => exact ⟨s, same ▸ hs, .same call⟩
  | registered scope registration reg wid valid only workers sessions =>
    cases sessions with
    | replayed t mem id worker healthy same => exact ⟨s, same ▸ hs, .same _⟩
    | fresh rows =>
      refine ⟨_, by rw [rows]; exact List.mem_append_left _ (List.mem_map_of_mem hs), ?_⟩
      split
      · exact .fenced scope registration
      · exact .same _
  | beat scope req t session scope_eq healthy moved =>
    exact moved.becomes (.beat scope req session) hs
  | staled t staleAfter stale moved => exact moved.becomes (.staled staleAfter stale) hs
  | wrote call id w performs applied => exact ⟨s, applied.sessions ▸ hs, .same call⟩

/-- **Every session row of the new state was there, or was registered.** -/
theorem Commit.born (h : Commit env db db' call) (hs' : s' ∈ db'.sessions.rows) :
    (∃ s ∈ db.sessions.rows, Becomes env s call s') ∨
      ∃ scope registration reg wid, call = .register scope registration ∧
        normalizeRegistration registration = .ok reg ∧
        s' = newSession scope wid reg env.clock.s₂ := by
  cases h with
  | unchanged call same => exact .inl ⟨s', same ▸ hs', .same call⟩
  | registered scope registration reg wid valid only workers sessions =>
    cases sessions with
    | replayed t mem id worker healthy same => exact .inl ⟨s', same ▸ hs', .same _⟩
    | fresh rows =>
      rw [rows, List.mem_append, List.mem_map, List.mem_singleton] at hs'
      rcases hs' with ⟨s, hs, rfl⟩ | rfl
      · refine .inl ⟨s, hs, ?_⟩
        split
        · exact .fenced scope registration
        · exact .same _
      · exact .inr ⟨scope, registration, reg, wid, rfl, valid, rfl⟩
  | beat scope req t session scope_eq healthy moved =>
    exact .inl (moved.born (.beat scope req session) hs')
  | staled t staleAfter stale moved => exact .inl (moved.born (.staled staleAfter stale) hs')
  | wrote call id w performs applied => exact .inl ⟨s', applied.sessions ▸ hs', .same call⟩

end Calls

/-! ## Runs -/

/-- The call of `l` is a heartbeat of the session `id` that committed, received at
the instant `t`. -/
def BeatAt (id : UUID) (t : Int) (l : Label) : Prop :=
  ∃ scope req, l.request.call = .heartbeat scope req ∧ req.sessionID = id ∧
    (∃ ans, l.outcome = .ok ans) ∧ t = l.request.env.clock.s₀

section Runs

variable {w w' : World} {l : Label} {trace : List Label} {s s' : WorkerSession}

theorem Step.aged (h : Step w l w') (hs : s ∈ w.db.sessions.rows) :
    ∃ s' ∈ w'.db.sessions.rows, Aged s s' := by
  obtain ⟨s', hs', hb⟩ := h.commit.becomes hs
  exact ⟨s', hs', hb.aged⟩

theorem Execution.aged (h : Execution w trace w') (hs : s ∈ w.db.sessions.rows) :
    ∃ s' ∈ w'.db.sessions.rows, Aged s s' := by
  induction h generalizing s with
  | nil w => exact ⟨s, hs, .refl s⟩
  | cons head _ ih =>
    obtain ⟨t, ht, hst⟩ := head.aged hs
    obtain ⟨u, hu, htu⟩ := ih ht
    exact ⟨u, hu, hst.trans htu⟩

theorem Step.orderly (h : Step w l w') (hw : ∀ s ∈ w.db.sessions.rows, s.Orderly) :
    ∀ s ∈ w'.db.sessions.rows, s.Orderly := by
  intro s' hs'
  rcases h.commit.born hs' with ⟨s, hs, hb⟩ | ⟨scope, registration, reg, wid, -, hvalid, rfl⟩
  · exact hb.orderly (hw s hs)
  · rw [normalizeRegistration_out hvalid]
    exact ⟨⟨nofun, nofun⟩, canonicalSet_sortedLT _, canonicalSet_sortedLT _⟩

/-- A heartbeat that committed is in its session's row. -/
theorem Step.beats {id : UUID} {t : Int} (h : Step w l w') (hbeat : BeatAt id t l) :
    ∃ s ∈ w'.db.sessions.rows, s.id = id ∧ t ≤ s.lastHeartbeatAt := by
  obtain ⟨scope, req, hcall, rfl, ⟨ans, hok⟩, rfl⟩ := hbeat
  obtain ⟨r, hr, -⟩ := answering_eq_ok.mp (h.ran hcall hok)
  obtain ⟨s, hid, -, -, hmoved⟩ := heartbeat_eq_ok hr
  exact ⟨_, hmoved.new_mem, hid, le_max_right _ _⟩

/-- The stored time bounds every heartbeat of the run. -/
theorem Execution.beats {id : UUID} {t : Int} (h : Execution w trace w') (hl : l ∈ trace)
    (hbeat : BeatAt id t l) (hs : s ∈ w'.db.sessions.rows) (hid : s.id = id) :
    t ≤ s.lastHeartbeatAt := by
  obtain ⟨pre, post, w₁, w₂, -, -, hstep, hpost⟩ := h.exists_step_of_mem hl
  obtain ⟨r, hr, hrid, ht⟩ := hstep.beats hbeat
  obtain ⟨r', hr', haged⟩ := Execution.aged hpost hr
  have heq : r' = s := w'.db.session_eq_of_id hr' hs (haged.id.trans (hrid.trans hid.symm))
  exact ht.trans (heq ▸ haged.beat)

/-- A staleness decision that ends a session ends the one it names, and its last
heartbeat is older than the window. -/
theorem Step.stale {id : UUID} {staleAfter : Int} (h : Step w l w')
    (hcall : l.request.call = .markSessionStale id staleAfter) (hs : s ∈ w.db.sessions.rows)
    (hcur : isCurrentSessionStatus s.status = true) (hs' : s' ∈ w'.db.sessions.rows)
    (hid : s'.id = s.id) (hended : isCurrentSessionStatus s'.status = false) :
    s.id = id ∧ goTime s.lastHeartbeatAt < goTime l.request.env.clock.s₀ - staleAfter := by
  obtain ⟨t, ht, hb⟩ := h.commit.becomes hs
  have hts : t = s' := w'.db.session_eq_of_id ht hs' (hb.aged.id.trans hid.symm)
  subst hts
  rw [hcall] at hb
  cases hb with
  | same =>
    rw [hcur] at hended
    cases hended
  | staled staleAfter stale =>
    rw [isStale, Bool.and_eq_true, decide_eq_true_eq] at stale
    exact ⟨rfl, stale.2⟩

end Runs

/-! ## Registering a session again -/

/-- The registration describes the stored session: its texts without surrounding
blanks are the stored ones, and so are its names, in whatever order and however
often they are given. -/
structure SameSession (s : WorkerSession) (registration : Registration) : Prop where
  hostname : s.hostname = trimSpace registration.hostname
  workerGroup : s.workerGroup = trimSpace registration.workerGroup
  concurrencyLimit : s.concurrencyLimit = registration.concurrencyLimit
  capabilities : ∀ v, v ∈ s.capabilities ↔ ∃ c ∈ registration.capabilities, trimSpace c = v
  supportedJobTypes :
    ∀ v, v ∈ s.supportedJobTypes ↔ ∃ t ∈ registration.supportedJobTypes, trimSpace t = v

/-- A list in increasing order is the set of names that have its members. -/
theorem eq_canonicalSet_iff {stored values : List String} (h : stored.SortedLT)
    (hblank : ∀ v ∈ values, trimSpace v ≠ "") :
    stored = canonicalSet values ↔ ∀ v, v ∈ stored ↔ ∃ w ∈ values, trimSpace w = v := by
  have hmem : ∀ v, v ∈ canonicalSet values ↔ ∃ w ∈ values, trimSpace w = v := by
    intro v
    rw [mem_canonicalSet, and_iff_right_iff_imp]
    rintro ⟨w, hw, rfl⟩
    exact hblank w hw
  constructor
  · rintro rfl
    exact hmem
  · intro hsame
    exact h.eq_of_mem_iff (canonicalSet_sortedLT values) fun v => (hsame v).trans (hmem v).symm

section Again

variable {env : Env} {db db' : DB} {scope : String} {registration reg : Registration}
  {s : WorkerSession}
variable {name : String} {wid : UUID} {t' : Table workers} {x : Worker}

/-- The fields the store compares, one by one, are the ones that describe it. -/
theorem sameSession_iff (hs : s.Orderly) (hreg : normalizeRegistration registration = .ok reg) :
    (s.hostname = reg.hostname ∧ s.workerGroup = reg.workerGroup ∧
      s.concurrencyLimit = reg.concurrencyLimit ∧ s.capabilities = reg.capabilities ∧
      s.supportedJobTypes = reg.supportedJobTypes) ↔ SameSession s registration := by
  obtain ⟨hcaps, htypes⟩ := normalizeRegistration_names hreg
  rw [normalizeRegistration_out hreg]
  have hc := eq_canonicalSet_iff hs.capabilities hcaps
  have ht := eq_canonicalSet_iff hs.jobTypes htypes
  constructor
  · rintro ⟨hhost, hgroup, hlimit, hcap, htype⟩
    exact ⟨hhost, hgroup, hlimit, hc.mp hcap, ht.mp htype⟩
  · rintro ⟨hhost, hgroup, hlimit, hcap, htype⟩
    exact ⟨hhost, hgroup, hlimit, hc.mpr hcap, ht.mpr htype⟩

/-- An upsert that answers the id of a known worker was for that worker's scope and
name: a new row under its id would be refused. -/
theorem upsertWorker_names (h : upsertWorker env scope name db.workers = .ok (wid, t'))
    (hx : x ∈ db.workers.rows) (hid : x.id = wid) : x.scope = scope ∧ x.name = name := by
  unfold upsertWorker at h
  cases hfind : db.workers.rows.find? fun w => w.scope == scope && w.name == name with
  | some y =>
    simp only [hfind, bind_eq_ok, pure_eq_ok, Prod.mk.injEq] at h
    obtain ⟨t₁, -, rfl, rfl⟩ := h
    have hxy : x = y := db.worker_eq_of_id hx (List.mem_of_find?_eq_some hfind) hid
    rw [hxy]
    simpa using List.find?_some hfind
  | none =>
    simp only [hfind, bind_eq_ok, pure_eq_ok, Prod.mk.injEq] at h
    obtain ⟨t₁, hins, rfl, rfl⟩ := h
    have hrows := insertRow_eq_ok hins
    have hclash := t₁.eq_of_clash (by rw [hrows]; exact List.mem_append_left _ hx)
      (by rw [hrows]; exact List.mem_concat_self)
      (Bool.or_eq_true_iff.mpr (.inl (sameKey_eq_true.mpr ⟨x.id, rfl, congrArg some hid.symm⟩)))
    rw [hclash]
    exact ⟨rfl, rfl⟩

/-- An upsert renames nobody. -/
theorem upsertWorker_kept (h : upsertWorker env scope name db.workers = .ok (wid, t'))
    (hx : x ∈ db.workers.rows) :
    ∃ x' ∈ t'.rows, x'.id = x.id ∧ x'.name = x.name := by
  unfold upsertWorker at h
  split at h
  · simp only [bind_eq_ok, pure_eq_ok, Prod.mk.injEq] at h
    obtain ⟨t₁, hupd, rfl, rfl⟩ := h
    refine ⟨_, by rw [Table.update_rows (orRefused_eq_ok.mp hupd)]; exact List.mem_map_of_mem hx, ?_⟩
    split <;> exact ⟨rfl, rfl⟩
  · simp only [bind_eq_ok, pure_eq_ok, Prod.mk.injEq] at h
    obtain ⟨t₁, hins, rfl, rfl⟩ := h
    exact ⟨x, by rw [insertRow_eq_ok hins]; exact List.mem_append_left _ hx, rfl, rfl⟩

/-- A stored session is read with its worker's name. -/
theorem readSessionForUpdate_known (h : upsertWorker env scope name db.workers = .ok (wid, t'))
    (hx : x ∈ db.workers.rows) (hs : s ∈ db.sessions.rows) (hworker : x.id = s.workerID) :
    readSessionForUpdate t' db.sessions s.id = some (sessionView x.name s) := by
  obtain ⟨x', hx', hid, hname⟩ := upsertWorker_kept h hx
  have hfs : (db.sessions.rows.find? fun r => r.id == s.id) = some s :=
    find?_eq_some_of_unique hs (by simp) fun r hr hp =>
      db.session_eq_of_id hr hs (beq_iff_eq.mp hp)
  have hfw : (t'.rows.find? fun y => y.id == s.workerID) = some x' := by
    refine find?_eq_some_of_unique hx' (beq_iff_eq.mpr (hid.trans hworker)) fun y hy hp => ?_
    refine t'.eq_of_clash hy hx' (Bool.or_eq_true_iff.mpr (.inl ?_))
    refine sameKey_eq_true.mpr ⟨y.id, rfl, congrArg some ?_⟩
    exact (hid.trans hworker).trans (beq_iff_eq.mp hp).symm
  simp [readSessionForUpdate, hfs, hfw, hname]

/-- Registering a known session: once the worker is upserted, the row that is read is
this session's. -/
theorem register_known {ws : Table workers} (hs : s ∈ db.sessions.rows)
    (hid : s.id = registration.sessionID) (hx : x ∈ db.workers.rows) (hxid : x.id = s.workerID)
    (hreg : normalizeRegistration registration = .ok reg)
    (hup : upsertWorker env scope reg.name db.workers = .ok (wid, ws)) :
    register env scope registration db
      = registerRead env scope reg wid ws db (some (sessionView x.name s)) := by
  have hread := readSessionForUpdate_known hup hx hs hxid
  rw [hid, ← (normalizeRegistration_eq_ok hreg).1] at hread
  have hchecked : checked (normalizeRegistration registration) .validation = .ok reg :=
    checked_eq_ok.mpr hreg
  simp only [register, hchecked, ok_bind, hup, hread]

/-- What a committed registration of a known session compared. -/
theorem register_known_eq_ok {r : Session} (hs : s ∈ db.sessions.rows)
    (hid : s.id = registration.sessionID) (hx : x ∈ db.workers.rows) (hxid : x.id = s.workerID)
    (h : register env scope registration db = .ok (r, db')) :
    ∃ reg wid ws, normalizeRegistration registration = .ok reg ∧
      upsertWorker env scope reg.name db.workers = .ok (wid, ws) ∧
      sameRegistration (sessionView x.name s) wid reg = true ∧ s.status = .healthy ∧
      db'.sessions = db.sessions := by
  have hstart := h
  simp only [register, bind_eq_ok, checked_eq_ok] at hstart
  obtain ⟨reg, hreg, ⟨wid, ws⟩, hup, -⟩ := hstart
  rw [register_known hs hid hx hxid hreg hup] at h
  simp only [registerRead, bind_eq_ok, demand_eq_ok, pure_eq_ok, Prod.mk.injEq, beq_iff_eq] at h
  obtain ⟨-, hsame, -, hstatus, -, rfl⟩ := h
  exact ⟨reg, wid, ws, hreg, hup, hsame, hstatus, rfl⟩

/-- The session `s` is the one that the registration, if it is valid, asks for: it is
healthy, belongs to the worker of that scope and name, and is described by it. -/
def Registers (db : DB) (scope : String) (registration : Registration) (s : WorkerSession) :
    Prop :=
  (∃ reg, normalizeRegistration registration = .ok reg) ∧ s.status = .healthy ∧
    (∃ x ∈ db.workers.rows, x.id = s.workerID ∧ x.scope = scope ∧
      x.name = trimSpace registration.name) ∧ SameSession s registration

/-- **Registering a known session.** It succeeds exactly when the registration asks
for the session as it is stored. -/
theorem register_again (hs : s ∈ db.sessions.rows) (hid : s.id = registration.sessionID)
    (horderly : s.Orderly)
    (hworkers : ∃ x ∈ db.workers.rows, x.id = s.workerID ∧ x.scope = s.scope) :
    (∃ r, register env scope registration db = .ok r) ↔ Registers db scope registration s := by
  obtain ⟨x, hx, hxid, -⟩ := hworkers
  constructor
  · rintro ⟨⟨r, db'⟩, h⟩
    obtain ⟨reg, wid, ws, hreg, hup, hsame, hstatus, -⟩ := register_known_eq_ok hs hid hx hxid h
    simp only [sameRegistration, Bool.and_eq_true, beq_iff_eq] at hsame
    obtain ⟨⟨⟨⟨⟨⟨⟨-, hwid⟩, -⟩, hhost⟩, hgroup⟩, hlimit⟩, hcaps⟩, htypes⟩ := hsame
    obtain ⟨hscope, hname⟩ := upsertWorker_names hup hx (hxid.trans hwid)
    rw [normalizeRegistration_out hreg] at hname
    exact ⟨⟨reg, hreg⟩, hstatus, ⟨x, hx, hxid, hscope, hname⟩,
      (sameSession_iff horderly hreg).mp ⟨hhost, hgroup, hlimit, hcaps, htypes⟩⟩
  · rintro ⟨⟨reg, hreg⟩, hstatus, ⟨y, hy, hyid, hscope, hname⟩, hsame⟩
    have hregname : reg.name = y.name := by rw [normalizeRegistration_out hreg, hname]
    obtain ⟨ws, hup⟩ := @upsertWorker_known db env y hy
    rw [hscope, ← hregname] at hup
    obtain ⟨hhost, hgroup, hlimit, hcaps, htypes⟩ := (sameSession_iff horderly hreg).mpr hsame
    have hsid : s.id = reg.sessionID := hid.trans (normalizeRegistration_eq_ok hreg).1.symm
    have hdemand : sameRegistration (sessionView y.name s) y.id reg = true := by
      simp [sameRegistration, sessionView, hsid, hyid, hregname, hhost, hgroup, hlimit, hcaps,
        htypes]
    refine ⟨(sessionView y.name s, { db with workers := ws }), ?_⟩
    rw [register_known hs hid hy hyid hreg hup]
    simp only [registerRead, bind_eq_ok, demand_eq_ok, beq_iff_eq]
    exact ⟨(), hdemand, (), hstatus, rfl⟩

end Again

/-! ## The laws of the session table -/

/-- What holds of the session table in the state `w` that the run `trace` led to. -/
structure SessionLaws (trace : List Label) (w : World) : Prop where
  one_current : ∀ s ∈ w.db.sessions.rows, ∀ t ∈ w.db.sessions.rows,
    isCurrentSessionStatus s.status = true → isCurrentSessionStatus t.status = true →
      s.workerID = t.workerID → s = t
  ended : ∀ s ∈ w.db.sessions.rows,
    (s.endedAt.isSome = true ↔ isCurrentSessionStatus s.status = false)
  kept : ∀ {later : List Label} {w' : World}, Execution w later w' → ∀ s ∈ w.db.sessions.rows,
    ∃ s' ∈ w'.db.sessions.rows, s'.id = s.id ∧
      (isCurrentSessionStatus s.status = false → isCurrentSessionStatus s'.status = false) ∧
      s.lastHeartbeatAt ≤ s'.lastHeartbeatAt
  stale : ∀ {l : Label} {w' : World} {id : UUID} {staleAfter : Int}, Step w l w' →
    l.request.call = .markSessionStale id staleAfter →
    ∀ s ∈ w.db.sessions.rows, isCurrentSessionStatus s.status = true →
    ∀ s' ∈ w'.db.sessions.rows, s'.id = s.id → isCurrentSessionStatus s'.status = false →
      s.id = id ∧ ∀ b ∈ trace, ∀ t, BeatAt s.id t b →
        goTime t < goTime l.request.env.clock.s₀ - staleAfter
  again : ∀ env scope registration, ∀ s ∈ w.db.sessions.rows, s.id = registration.sessionID →
    ((∃ r, register env scope registration w.db = .ok r) ↔
      Registers w.db scope registration s) ∧
    ∀ r db', register env scope registration w.db = .ok (r, db') →
      db'.sessions = w.db.sessions

/-- **The session lifecycle.** The laws hold in every state of every run from an
orderly session table, whoever calls what. -/
theorem session_lifecycle {w₀ w : World} {trace : List Label} (hinit : Initial w₀)
    (horderly : ∀ s ∈ w₀.db.sessions.rows, s.Orderly) (hrun : Execution w₀ trace w) :
    SessionLaws trace w := by
  have hsound : Sound w := Reachable.sound ⟨w₀, trace, hinit, hrun⟩
  have hord : ∀ s ∈ w.db.sessions.rows, s.Orderly :=
    hrun.invariant (P := fun w => ∀ s ∈ w.db.sessions.rows, s.Orderly)
      (fun h hs => hs.orderly h) horderly
  refine ⟨?_, fun s hs => (hord s hs).ended, ?_, ?_, ?_⟩
  · intro s hs t ht hcs hct hworker
    exact w.db.session_eq_of_current hs ht hcs hct hworker
  · intro later w' hlater s hs
    obtain ⟨s', hs', haged⟩ := Execution.aged hlater hs
    exact ⟨s', hs', haged.id, haged.over, haged.beat⟩
  · intro l w' id staleAfter hstep hcall s hs hcur s' hs' hid hended
    obtain ⟨hsid, hlt⟩ := hstep.stale hcall hs hcur hs' hid hended
    refine ⟨hsid, fun b hb t hbeat => ?_⟩
    have hle := Execution.beats hrun hb hbeat hs rfl
    unfold goTime at hlt ⊢
    omega
  · intro env scope registration s hs hid
    obtain ⟨x, hx, hxid, hxscope⟩ := hsound.workers s hs
    refine ⟨register_again hs hid (hord s hs) ⟨x, hx, hxid, hxscope⟩, fun r db' h => ?_⟩
    obtain ⟨-, -, -, -, -, -, -, hsame⟩ := register_known_eq_ok hs hid hx hxid h
    exact hsame

/-- A worker registers, beats once, and is not heard of again. -/
def silentWorker : List Request :=
  [⟨envAt 1 1 0, .register "tenant" ⟨7, "worker", "host", "workers", 2, [], ["email"], none⟩⟩,
    ⟨envAt 2 0 0, .heartbeat "tenant" ⟨1, 7⟩⟩]

/-- Its session is current, and is marked stale when the window has passed. -/
theorem session_lifecycle_silent :
    SessionLaws (quiet.exec silentWorker).1 (quiet.exec silentWorker).2 ∧
      (quiet.exec silentWorker).2.db.sessions.rows.map
        (fun s => (s.id, s.status, s.lastHeartbeatAt)) = [(7, .healthy, 2)] ∧
      (markSessionStale (envAt 100 0 0) 7 10000 (quiet.exec silentWorker).2.db).toOption.map
        Prod.fst = some true := by
  have hrun : Execution quiet (quiet.exec silentWorker).1 (quiet.exec silentWorker).2 :=
    World.exec_run (by decide)
  exact ⟨session_lifecycle quiet_initial (fun s hs => by cases hs) hrun, by decide +kernel⟩

end TaskForge
