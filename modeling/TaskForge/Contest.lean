/-
What keeps concurrent submissions and replays in order.

The calls of a contest hold rows that nobody sees. Rows that are held pass their
checks and clash with no committed row, so a `COMMIT` cannot fail; rows that two
calls hold do not clash with each other, so one call's commit does not spoil
another's; and what a call has found out about an identity stays so, since records
are never removed. So a loser always finds the winner's record, with its job.
-/
import TaskForge.Admission
import TaskForge.Submission

open Relational Fallible Runs

namespace TaskForge

/-! ## Records -/

section Records

variable {db : DB} {r r' : Record} {b : Birth}

theorem Record.clash_of_identity (h : r.identity = r'.identity) : r.clash r' = true := by
  cases r with
  | submission a =>
    cases r' with
    | submission c =>
      simp only [Record.identity, Identity.submission.injEq] at h
      exact sameKey_eq_true.mpr ⟨(c.scope, c.idempotencyKey),
        by simp [h], rfl⟩
    | replay c => cases h
  | replay a =>
    cases r' with
    | submission c => cases h
    | replay c =>
      simp only [Record.identity, Identity.replay.injEq] at h
      have hkey : sameKey DLQReplay.identity a c = true :=
        sameKey_eq_true.mpr ⟨(c.scope, c.originalJobID, c.idempotencyKey),
          by simp [DLQReplay.identity, h], rfl⟩
      simp [Record.clash, dlqReplays, hkey]

theorem mem_records_submission {x : IdempotencyRecord} :
    Record.submission x ∈ db.records ↔ x ∈ db.idempotency.rows := by
  simp [DB.records]

theorem mem_records_replay {x : DLQReplay} :
    Record.replay x ∈ db.records ↔ x ∈ db.dlqReplays.rows := by
  simp [DB.records]

/-- Records that are committed and clash are the same. -/
theorem DB.record_eq_of_clash (hr : r ∈ db.records) (hr' : r' ∈ db.records)
    (h : r.clash r' = true) : r = r' := by
  cases r with
  | submission a =>
    cases r' with
    | submission c =>
      rw [mem_records_submission] at hr hr'
      rw [db.idempotency.eq_of_clash hr hr' h]
    | replay c => cases h
  | replay a =>
    cases r' with
    | submission c => cases h
    | replay c =>
      rw [mem_records_replay] at hr hr'
      rw [db.dlqReplays.eq_of_clash hr hr' h]

/-- Records that clash and are of different identities are of the same job. -/
theorem Record.jobID_of_clash (h : r.clash r' = true) (hne : r.identity ≠ r'.identity) :
    r.jobID = r'.jobID := by
  cases r with
  | submission a =>
    cases r' with
    | submission c =>
      have hident : IdempotencyRecord.identity a = IdempotencyRecord.identity c := eq_of_sameKey h
      exact absurd (by simpa [Record.identity, IdempotencyRecord.identity] using hident) hne
    | replay c => cases h
  | replay a =>
    cases r' with
    | submission c => cases h
    | replay c =>
      rcases Bool.or_eq_true_iff.mp h with hident | hjob
      · have hident := eq_of_sameKey hident
        exact absurd (by simpa [Record.identity, DLQReplay.identity] using hident) hne
      · exact Option.some.inj (eq_of_sameKey hjob)

/-- **An identity has one record.** -/
theorem DB.record_eq_of_identity (hr : r ∈ db.records) (hr' : r' ∈ db.records)
    (h : r.identity = r'.identity) : r = r' :=
  db.record_eq_of_clash hr hr' (Record.clash_of_identity h)

theorem DB.records_countP_le (db : DB) (i : Identity) :
    db.records.countP (fun r => decide (r.identity = i)) ≤ 1 := by
  unfold DB.records
  rw [List.countP_append, List.countP_map, List.countP_map]
  cases i with
  | submission scope key =>
    have hother : db.dlqReplays.rows.countP
        ((fun r : Record => decide (r.identity = .submission scope key)) ∘ .replay) = 0 := by
      rw [List.countP_eq_zero]
      intro x _ hx
      simp [Record.identity] at hx
    rw [hother]
    refine db.idempotency.countP_le_one fun a c ha hc => ?_
    simp only [Function.comp_apply, decide_eq_true_eq] at ha hc
    exact (show (Record.submission a).clash (.submission c) = true from
      Record.clash_of_identity (ha.trans hc.symm))
  | replay scope original key =>
    have hother : db.idempotency.rows.countP
        ((fun r : Record => decide (r.identity = .replay scope original key)) ∘ .submission) = 0 := by
      rw [List.countP_eq_zero]
      intro x _ hx
      simp [Record.identity] at hx
    rw [hother, Nat.zero_add]
    refine db.dlqReplays.countP_le_one fun a c ha hc => ?_
    simp only [Function.comp_apply, decide_eq_true_eq] at ha hc
    exact (show (Record.replay a).clash (.replay c) = true from
      Record.clash_of_identity (ha.trans hc.symm))

/-! ### The rows of a birth -/

theorem Birth.record_identity (b : Birth) : b.record.identity = b.creation.identity := by
  cases b <;> rfl

theorem Birth.record_jobID (b : Birth) : b.record.jobID = b.job.id := by
  cases b <;> rfl

theorem Birth.record_scope (b : Birth) : b.record.scope = b.job.scope := by
  cases b <;> rfl

theorem Birth.job_id (b : Birth) : b.job.id = b.creation.env.id₁ := by
  cases b <;> rfl

theorem Birth.view_id (b : Birth) : b.view.id = b.job.id := by
  cases b <;> rfl

/-- The record a call writes answers the call. -/
theorem Birth.agrees (b : Birth) : b.creation.Agrees b.record := by
  cases b with
  | submission s => exact rfl
  | replay r original => exact trivial

theorem Birth.event_eq_some {e : OutboxEvent} (h : b.event = some e) :
    e.id = b.creation.env.id₂ ∧ e.jobID = some b.job.id := by
  cases b with
  | submission s =>
    simp only [Birth.event] at h
    split_ifs at h
    cases h
    exact ⟨rfl, rfl⟩
  | replay r original =>
    cases h
    exact ⟨rfl, rfl⟩

/-- A job is notified of exactly when it is created `QUEUED`. -/
theorem Birth.event_isSome (b : Birth) : b.event.isSome = true ↔ b.job.status = .queued := by
  cases b with
  | submission s =>
    by_cases hd : isDelayed s.env.clock.s₀ s.req = true
    · simp [Birth.event, Birth.job, submittedJob, hd]
    · simp [Birth.event, Birth.job, submittedJob, hd]
  | replay r original => simp [Birth.event, Birth.job, replacementJob]

end Records

/-! ## Inserts and commits -/

/-- The record passes its checks and clashes with none that is committed. -/
def DB.AdmitsRecord (db : DB) (r : Record) : Prop :=
  r.check = true ∧ ∀ x ∈ db.records, x.clash r = false

section Inserts

variable {db db' : DB} {b : Birth}

theorem Birth.insertJob_ok : (∃ t, b.insertJob db = .ok t) ↔ db.jobs.Admits (.insert b.job) :=
  insertRow_ok_iff

/-- Records of one table clash with none of the other. -/
theorem DB.admitsRecord_iff (db : DB) : ∀ r, db.AdmitsRecord r ↔
    match r with
    | .submission x => db.idempotency.Admits (.insert x)
    | .replay x => db.dlqReplays.Admits (.insert x)
  | .submission _ | .replay _ => by
    refine and_congr_right fun _ => ?_
    simp [DB.records, or_imp, forall_and, Record.clash]

theorem Birth.insertRecord_ok :
    (∃ db', b.insertRecord db = .ok db') ↔ db.AdmitsRecord b.record := by
  rw [DB.admitsRecord_iff]
  unfold Birth.insertRecord
  cases b.record with
  | submission | replay =>
    simp only [bind_eq_ok, pure_eq_ok]
    rw [exists_comm]
    simp only [exists_and_left, exists_eq', and_true]
    exact insertRow_ok_iff

/-- The notification is one insert, or none. -/
theorem Birth.insertEvent_eq : b.insertEvent db =
    match b.event with
    | none => pure db.outbox
    | some e => insertRow .outboxEvents db.outbox e (reported "insert outbox event") := by
  cases b with
  | submission s =>
    rw [Birth.insertEvent, notifySubmitted_submittedJob]
    by_cases hd : isDelayed s.env.clock.s₀ s.req = true
    · simp [Birth.event, hd]
    · simp only [Birth.event, hd]
      rfl
  | replay r original => rfl

theorem Birth.insertEvent_ok :
    (∃ t, b.insertEvent db = .ok t) ↔ ∀ e, b.event = some e → db.outbox.Admits (.insert e) := by
  rw [Birth.insertEvent_eq]
  cases b.event with
  | none =>
    constructor
    · rintro - e he
      cases he
    · exact fun _ => ⟨db.outbox, rfl⟩
  | some e =>
    rw [insertRow_ok_iff]
    constructor
    · intro h e' he'
      cases he'
      exact h
    · exact fun h => h e rfl

/-- **A commit is the transaction's writes.** -/
theorem Birth.commit_eq_ok (h : b.commit db = .ok db') : b.writes.Applied db db' := by
  simp only [Birth.commit, bind_eq_ok, pure_eq_ok] at h
  obtain ⟨jobs', hjobs, recorded, hrecorded, outbox', houtbox, rfl⟩ := h
  have hjrows := insertRow_eq_ok hjobs
  have horows : outbox'.rows = db.outbox.rows ++ b.event.toList := by
    rw [Birth.insertEvent_eq] at houtbox
    cases he : b.event with
    | none =>
      simp only [he, pure_eq_ok] at houtbox
      rw [← houtbox]
      exact (List.append_nil _).symm
    | some e =>
      simp only [he] at houtbox
      exact insertRow_eq_ok houtbox
  cases hr : b.record with
  | submission | replay =>
    simp only [Birth.insertRecord, hr, bind_eq_ok, pure_eq_ok] at hrecorded
    obtain ⟨t, ht, rfl⟩ := hrecorded
    have hrows := insertRow_eq_ok ht
    constructor <;> simp [Birth.writes, hr, hjrows, horows, hrows, RowWrite.apply]

/-- Rows that are admitted can be committed. -/
theorem Birth.commit_ok (hjob : db.jobs.Admits (.insert b.job)) (hrecord : db.AdmitsRecord b.record)
    (hevent : ∀ e, b.event = some e → db.outbox.Admits (.insert e)) :
    ∃ db', b.commit db = .ok db' := by
  obtain ⟨jobs', hjobs⟩ := Birth.insertJob_ok.mpr hjob
  obtain ⟨recorded, hrecorded⟩ := Birth.insertRecord_ok.mpr hrecord
  obtain ⟨outbox', houtbox⟩ := Birth.insertEvent_ok.mpr hevent
  refine ⟨{ recorded with jobs := jobs', outbox := outbox' }, ?_⟩
  simp only [Birth.commit, hjobs, hrecorded, houtbox]
  rfl

/-! ### What a commit adds -/

theorem Birth.mem_records (h : b.writes.Applied db db') {r : Record} :
    r ∈ db'.records ↔ r ∈ db.records ∨ r = b.record := by
  unfold DB.records
  rw [h.idempotency, h.dlqReplays]
  cases hr : b.record with
  | submission x =>
    simp only [Birth.writes, hr, List.append_nil, List.map_append, List.map_cons, List.map_nil,
      List.mem_append, List.mem_singleton]
    exact or_right_comm
  | replay x =>
    simp only [Birth.writes, hr, List.append_nil, List.map_append, List.map_cons, List.map_nil,
      List.mem_append, List.mem_singleton]
    exact or_assoc.symm

theorem Birth.records_countP (h : b.writes.Applied db db') (p : Record → Bool) :
    db'.records.countP p = db.records.countP p + (if p b.record then 1 else 0) := by
  unfold DB.records
  rw [h.idempotency, h.dlqReplays]
  cases hr : b.record with
  | submission | replay =>
    simp only [Birth.writes, hr, List.append_nil, List.map_append, List.countP_append, List.map_cons,
      List.map_nil, List.countP_cons, List.countP_nil]
    omega

theorem Birth.mem_jobs (h : b.writes.Applied db db') {j : Job} :
    j ∈ db'.jobs.rows ↔ j ∈ db.jobs.rows ∨ j = b.job := by
  rw [h.jobs]
  simp [Birth.writes, RowWrite.apply]

end Inserts

/-! ## The rest of the service -/

/-- What transactions that make no job leave alone. -/
structure Spared (db db' : DB) : Prop where
  records : db'.records = db.records
  queues : db'.queues = db.queues
  jobs : ∃ f : Job → Job, db'.jobs.rows = db.jobs.rows.map f ∧ ∀ j ∈ db.jobs.rows,
    (f j).id = j.id ∧ (f j).scope = j.scope ∧ (j.status = .deadLettered → f j = j)
  entries : ∀ d ∈ db.dlqEntries.rows, d ∈ db'.dlqEntries.rows
  events : ∀ e ∈ db.outbox.rows, ∃ e' ∈ db'.outbox.rows, e'.id = e.id

section Service

variable {env : Env} {db db' : DB} {call : Call} {w w' : World} {t : Transition}

theorem Spared.refl (db : DB) : Spared db db where
  records := rfl
  queues := rfl
  jobs := ⟨fun j => j, (List.map_id _).symm, fun _ _ => ⟨rfl, rfl, fun _ => rfl⟩⟩
  entries := fun _ hd => hd
  events := fun e he => ⟨e, he, rfl⟩

theorem SessionsOnly.spared (h : SessionsOnly db db') : Spared db db' := by
  have hsame := Spared.refl db
  refine ⟨?_, h.queues, ?_, ?_, ?_⟩
  · unfold DB.records
    rw [h.idempotency, h.dlqReplays]
  · rw [h.jobs]
    exact hsame.jobs
  · rw [h.dlqEntries]
    exact hsame.entries
  · rw [h.outbox]
    exact hsame.events

theorem Performs.creates_none {id : UUID} {writes : Writes} (h : Performs env db call id writes)
    (hc : call.creates = false) :
    (∀ j, writes.job ≠ .insert j) ∧ writes.idempotency = [] ∧ writes.replays = [] := by
  cases h with
  | submit | replay => cases hc
  | expire stats s j a l w binding lapsed verdict =>
    cases verdict <;> exact ⟨fun _ hw => (by cases hw), rfl, rfl⟩
  | _ => exact ⟨fun _ hw => (by cases hw), rfl, rfl⟩

theorem Commit.spared (h : Commit env db db' call) (hc : call.creates = false) :
    Spared db db' := by
  cases h with
  | unchanged call same => exact same ▸ Spared.refl db
  | registered scope registration reg wid valid only => exact only.spared
  | beat scope req s session scope_eq healthy moved => exact moved.only.spared
  | staled s staleAfter stale moved => exact moved.only.spared
  | wrote call id writes performs applied =>
    obtain ⟨hinsert, hidem, hreplays⟩ := performs.creates_none hc
    refine ⟨?_, applied.queues, ?_, ?_, ?_⟩
    · unfold DB.records
      rw [applied.idempotency, applied.dlqReplays, hidem, hreplays, List.append_nil, List.append_nil]
    · rw [applied.jobs]
      cases hw : writes.job with
      | keep => exact (Spared.refl db).jobs
      | insert j => exact absurd hw (hinsert j)
      | replace old new =>
        obtain ⟨halive, hid, hscope, -⟩ := performs.rewritten hw
        refine ⟨fun j => if j = old then new else j, rfl, fun j _ => ?_⟩
        show (if j = old then new else j).id = j.id ∧ (if j = old then new else j).scope = j.scope ∧
          (j.status = .deadLettered → (if j = old then new else j) = j)
        by_cases hj : j = old
        · rw [if_pos hj, hj]
          exact ⟨hid, hscope, fun hdead => absurd hdead halive⟩
        · rw [if_neg hj]
          exact ⟨rfl, rfl, fun _ => rfl⟩
    · intro d hd
      rw [applied.dlqEntries]
      exact List.mem_append_left _ hd
    · intro e he
      rw [applied.outbox]
      exact ⟨e, List.mem_append_left _ he, rfl⟩

theorem ServiceStep.spared (h : ServiceStep w t w') (hc : t.creates = false) :
    Spared w.db w'.db := by
  obtain ⟨-, -, ⟨l, haction, hstep⟩ | ⟨hmoved, -⟩⟩ := h.cases
  · unfold Transition.creates at hc
    rw [haction] at hc
    exact hstep.commit.spared hc
  · have hsame := Spared.refl w.db
    obtain ⟨f, hrows, hf⟩ := hmoved.rows
    rw [hmoved.only]
    refine ⟨rfl, rfl, hsame.jobs, hsame.entries, fun e he => ⟨f e, ?_, (hf e he).id⟩⟩
    show f e ∈ w'.db.outbox.rows
    rw [hrows]
    exact List.mem_map_of_mem he

/-- A job is still there, with its id and scope. -/
theorem Spared.job (h : Spared db db') {j : Job} (hj : j ∈ db.jobs.rows) :
    ∃ j' ∈ db'.jobs.rows, j'.id = j.id ∧ j'.scope = j.scope := by
  obtain ⟨f, hrows, hf⟩ := h.jobs
  refine ⟨f j, ?_, (hf j hj).1, (hf j hj).2.1⟩
  rw [hrows]
  exact List.mem_map_of_mem hj

/-- And every job was there. -/
theorem Spared.origin (h : Spared db db') {j' : Job} (hj' : j' ∈ db'.jobs.rows) :
    ∃ j ∈ db.jobs.rows, j.id = j'.id := by
  obtain ⟨f, hrows, hf⟩ := h.jobs
  rw [hrows] at hj'
  obtain ⟨j, hj, rfl⟩ := List.mem_map.mp hj'
  exact ⟨j, hj, (hf j hj).1.symm⟩

end Service

/-! ## The rows calls hold -/

namespace Stage

/-- The rows a call holds can be committed. -/
structure Admitted (db : DB) (p : Stage) : Prop where
  job : ∀ j, p.jobRow = some j → db.jobs.Admits (.insert j)
  record : ∀ r, p.recordRow = some r → db.AdmitsRecord r
  event : ∀ e, p.eventRow = some e → db.outbox.Admits (.insert e)

/-- The rows two calls hold do not clash. -/
structure Apart (p q : Stage) : Prop where
  job : ∀ j, p.jobRow = some j → ∀ k, q.jobRow = some k → jobs.clash j k = false
  record : ∀ r, p.recordRow = some r → ∀ r', q.recordRow = some r' → r.clash r' = false
  event : ∀ e, p.eventRow = some e → ∀ e', q.eventRow = some e' → outboxEvents.clash e e' = false

/-- A call holds no row. -/
structure Bare (p : Stage) : Prop where
  job : p.jobRow = none
  record : p.recordRow = none
  event : p.eventRow = none

/-- What a statement does to the rows its call holds. -/
inductive Turns (db : DB) : Stage → Stage → Prop where
  | bare {p p' : Stage} (bare : p'.Bare) : Turns db p p'
  | job (b : Birth) (admits : db.jobs.Admits (.insert b.job)) :
      Turns db (.insertJob b) (.insertRecord b)
  | lost (b : Birth) : Turns db (.insertRecord b) (.rollback b)
  | record (b : Birth) (admits : db.AdmitsRecord b.record) :
      Turns db (.insertRecord b) (.insertEvent b)
  | event (b : Birth) (admits : ∀ e, b.event = some e → db.outbox.Admits (.insert e)) :
      Turns db (.insertEvent b) (.commit b)

end Stage

section Rows

variable {db : DB} {p p' q : Stage} {c : Creation}

/-- A call that goes on or returns has what both have. -/
theorem goOn_cases {α : Type} {x : Tx α} {next : α → Stage} {P : Stage → Prop}
    (hok : ∀ a, x = .ok a → P (next a)) (herr : ∀ f, x = .error f → P (.returned c (.refused f))) :
    P (goOn c x next) := by
  cases x with
  | ok a => exact hok a rfl
  | error f => exact herr f rfl

theorem Stage.bare_returned (c : Creation) (o : Outcome) : (Stage.returned c o).Bare :=
  ⟨rfl, rfl, rfl⟩

theorem Stage.turns_goOn {α : Type} {x : Tx α} {next : α → Stage}
    (h : ∀ a, x = .ok a → p.Turns db (next a)) : p.Turns db (goOn c x next) :=
  goOn_cases h fun f _ => .bare (Stage.bare_returned c (.refused f))

theorem Stage.next_turns (h : p.isRunning = true) : p.Turns db (p.next db) := by
  cases p with
  | insertJob b => exact turns_goOn fun t ht => .job b (Birth.insertJob_ok.mp ⟨t, ht⟩)
  | insertRecord b =>
    rw [Stage.next]
    split_ifs
    · exact .lost b
    · exact turns_goOn fun t ht => .record b (Birth.insertRecord_ok.mp ⟨t, ht⟩)
  | insertEvent b => exact turns_goOn fun t ht => .event b (Birth.insertEvent_ok.mp ⟨t, ht⟩)
  | commit | returned => cases h
  | beginSubmit | readSubmissionTime | beginReplay | readReplayTime | rollback =>
    exact .bare ⟨rfl, rfl, rfl⟩
  | _ => exact turns_goOn fun _ _ => .bare ⟨rfl, rfl, rfl⟩

theorem of_none {α : Type} {o : Option α} {P : α → Prop} (h : o = none) : ∀ a, o = some a → P a := by
  intro a ha
  rw [h] at ha
  cases ha

theorem Stage.Bare.admitted (h : p.Bare) : p.Admitted db :=
  ⟨of_none h.job, of_none h.record, of_none h.event⟩

theorem Stage.Bare.apart (h : p.Bare) : p.Apart q :=
  ⟨of_none h.job, of_none h.record, of_none h.event⟩

theorem Record.clash_symm (r r' : Record) : r.clash r' = r'.clash r := by
  cases r <;> cases r'
  · exact idempotencyRecords.clash_symm _ _
  · rfl
  · rfl
  · exact dlqReplays.clash_symm _ _

theorem Stage.Apart.symm (h : p.Apart q) : q.Apart p where
  job := fun j hj k hk => by rw [jobs.clash_symm]; exact h.job k hk j hj
  record := fun r hr r' hr' => by rw [Record.clash_symm]; exact h.record r' hr' r hr
  event := fun e he e' he' => by rw [outboxEvents.clash_symm]; exact h.event e' he' e he

/-- A call holds rows that were accepted. -/
theorem Stage.Turns.admitted (ht : p.Turns db p') (h : p.Admitted db) : p'.Admitted db := by
  cases ht with
  | bare bare => exact bare.admitted
  | job b admits =>
    refine ⟨fun j hj => ?_, of_none rfl, of_none rfl⟩
    cases hj
    exact admits
  | lost b => exact ⟨h.job, of_none rfl, of_none rfl⟩
  | record b admits =>
    refine ⟨h.job, fun r hr => ?_, of_none rfl⟩
    cases hr
    exact admits
  | event b admits => exact ⟨h.job, h.record, admits⟩

/-- The row it adds clashes with no row of a call it did not wait for. -/
theorem Stage.Turns.apart (ht : p.Turns db p') (h : p.Apart q) (hpass : p.passes q = true) :
    p'.Apart q := by
  cases ht with
  | bare bare => exact bare.apart
  | job b admits =>
    refine ⟨fun j hj k hk => ?_, of_none rfl, of_none rfl⟩
    cases hj
    rw [Stage.passes, hk] at hpass
    rw [jobs.clash_symm]
    simpa using hpass
  | lost b => exact ⟨h.job, of_none rfl, of_none rfl⟩
  | record b admits =>
    refine ⟨h.job, fun r hr r' hr' => ?_, of_none rfl⟩
    cases hr
    rw [Stage.passes, hr'] at hpass
    rw [Record.clash_symm]
    simpa using hpass
  | event b admits =>
    refine ⟨h.job, h.record, fun e he e' he' => ?_⟩
    have hevent : b.event = some e := he
    rw [Stage.passes, he', hevent] at hpass
    rw [outboxEvents.clash_symm]
    simpa using hpass

end Rows

/-! ## What calls know -/

/-- The rows of the call pass their checks: those of a submission as they are, those
of a replay because its original's do. -/
def Creation.valid : Creation → Bool
  | .submit s => (Birth.submission s).fits
  | .replay r => lengthBetween 1 255 r.key

/-- An id that the call drew names a row. -/
def Creation.Taken (db : DB) (c : Creation) : Prop :=
  (∃ j ∈ db.jobs.rows, j.id = c.env.id₁) ∨ ∃ e ∈ db.outbox.rows, e.id = c.env.id₂

/-- The original of a replay is a job of its scope. -/
def Birth.Grounded (db : DB) : Birth → Prop
  | .submission _ => True
  | .replay r original =>
    original.Checked ∧ original.scope = r.scope ∧ original.id = r.originalJobID ∧
      ∃ j ∈ db.jobs.rows, j.id = original.id

/-- Why a call ended as it did. -/
inductive Answered (db : DB) : Creation → Outcome → Prop where
  | made {c : Creation} {v : JobView} (r : Record) (mem : r ∈ db.records)
      (identity : r.identity = c.identity) (job : r.jobID = v.id) (agrees : c.Agrees r) :
      Answered db c (.made v)
  | found {c : Creation} {v : JobView} (r : Record) (mem : r ∈ db.records)
      (identity : r.identity = c.identity) (job : r.jobID = v.id) (agrees : c.Agrees r) :
      Answered db c (.found v)
  | conflict {s : Submission} (r : IdempotencyRecord) (mem : r ∈ db.idempotency.rows)
      (scope : r.scope = s.scope) (key : r.idempotencyKey = s.key)
      (differs : r.requestFingerprint ≠ s.fingerprint) :
      Answered db (.submit s) (.refused ⟨.idempotencyConflict, .check⟩)
  | unknownQueue {s : Submission} (none : ∀ q ∈ db.queues.rows, q.name ≠ s.req.queue) :
      Answered db (.submit s) (.refused ⟨.unknownQueue, .check⟩)
  | unready {r : Replaying} {f : Failure} (own : f.cause = .check) :
      Answered db (.replay r) (.refused f)
  | schema {c : Creation} {f : Failure} (forced : f.cause ≠ .check)
      (taken : c.valid = true → c.Taken db) : Answered db c (.refused f)
  | broken {c : Creation} : Answered db c .broken

namespace Stage

/-- What the call is making. -/
def birth : Stage → Option Birth
  | .readEntry r original | .readReplayTime r original => some (.replay r original)
  | .insertJob b | .insertRecord b | .insertEvent b | .commit b | .rollback b => some b
  | _ => none

/-- What the call has found out is so. -/
def Informed (db : DB) : Stage → Prop
  | .rollback b => ∃ r ∈ db.records, r.identity = b.creation.identity
  | .readRecord c => ∃ r ∈ db.records, r.identity = c.identity
  | .readJob c jobID => ∃ r ∈ db.records, r.identity = c.identity ∧ r.jobID = jobID ∧ c.Agrees r
  | .returned c o => Answered db c o
  | _ => True

end Stage

/-- Records, jobs and events are never removed, nor do queues change. -/
structure Later (db db' : DB) : Prop where
  records : ∀ r ∈ db.records, r ∈ db'.records
  queues : db'.queues = db.queues
  jobs : ∀ j ∈ db.jobs.rows, ∃ j' ∈ db'.jobs.rows, j'.id = j.id ∧ j'.scope = j.scope
  events : ∀ e ∈ db.outbox.rows, ∃ e' ∈ db'.outbox.rows, e'.id = e.id

section Knowledge

variable {db db' : DB} {p : Stage} {c : Creation} {o : Outcome} {b : Birth} {f : Failure}

theorem Spared.later (h : Spared db db') : Later db db' where
  records := by
    rw [h.records]
    exact fun _ hr => hr
  queues := h.queues
  jobs := fun _ hj => h.job hj
  events := h.events

theorem Birth.later (h : b.writes.Applied db db') : Later db db' where
  records := fun _ hr => (Birth.mem_records h).mpr (.inl hr)
  queues := h.queues
  jobs := fun j hj => ⟨j, (Birth.mem_jobs h).mpr (.inl hj), rfl, rfl⟩
  events := by
    intro e he
    rw [h.outbox]
    exact ⟨e, List.mem_append_left _ he, rfl⟩

theorem Later.taken (h : Later db db') (ht : c.Taken db) : c.Taken db' := by
  rcases ht with ⟨j, hj, hid⟩ | ⟨e, he, hid⟩
  · obtain ⟨j', hj', hid', -⟩ := h.jobs j hj
    exact .inl ⟨j', hj', hid'.trans hid⟩
  · obtain ⟨e', he', hid'⟩ := h.events e he
    exact .inr ⟨e', he', hid'.trans hid⟩

theorem Birth.Grounded.later (h : Later db db') (hg : b.Grounded db) : b.Grounded db' := by
  cases b with
  | submission s => trivial
  | replay r original =>
    obtain ⟨hchecked, hscope, hid, j, hj, hjid⟩ := hg
    obtain ⟨j', hj', hid', -⟩ := h.jobs j hj
    exact ⟨hchecked, hscope, hid, j', hj', hid'.trans hjid⟩

theorem Answered.later (h : Later db db') (ha : Answered db c o) : Answered db' c o := by
  cases ha with
  | made r mem identity job agrees => exact .made r (h.records r mem) identity job agrees
  | found r mem identity job agrees => exact .found r (h.records r mem) identity job agrees
  | conflict r mem scope key differs =>
    have hmem := h.records (.submission r) (mem_records_submission.mpr mem)
    exact .conflict r (mem_records_submission.mp hmem) scope key differs
  | unknownQueue none => exact .unknownQueue (h.queues ▸ none)
  | unready own => exact .unready own
  | schema forced taken => exact .schema forced fun hv => h.taken (taken hv)
  | broken => exact .broken

theorem Stage.Informed.later (h : Later db db') (hp : p.Informed db) : p.Informed db' := by
  cases p with
  | rollback | readRecord =>
    obtain ⟨r, hr, hid⟩ := hp
    exact ⟨r, h.records r hr, hid⟩
  | readJob c jobID =>
    obtain ⟨r, hr, hid, hjob, hagrees⟩ := hp
    exact ⟨r, h.records r hr, hid, hjob, hagrees⟩
  | returned c o => exact Answered.later h hp
  | _ => trivial

/-! ### Statements that find something out -/

/-- The record of an identity that is taken is found, and is the one that is there. -/
theorem Creation.readRecord_found (hc : ∃ r ∈ db.records, r.identity = c.identity) :
    (∃ jobID, c.readRecord db = .ok jobID ∧
        ∃ r ∈ db.records, r.identity = c.identity ∧ r.jobID = jobID ∧ c.Agrees r) ∨
      ((∃ s, c = .submit s) ∧ c.readRecord db = .error ⟨.idempotencyConflict, .check⟩ ∧
        Answered db c (.refused ⟨.idempotencyConflict, .check⟩)) := by
  obtain ⟨r, hr, hid⟩ := hc
  cases c with
  | submit s =>
    cases r with
    | replay x => cases hid
    | submission x =>
      simp only [Record.identity, Creation.identity, Identity.submission.injEq] at hid
      have hx := mem_records_submission.mp hr
      have hfind : (db.idempotency.rows.find? fun y =>
          y.scope == s.scope && y.idempotencyKey == s.key) = some x := by
        refine find?_eq_some_of_unique hx (by simp [hid]) fun y hy hp => ?_
        simp only [Bool.and_eq_true, beq_iff_eq] at hp
        have heq : Record.submission y = .submission x :=
          DB.record_eq_of_identity (mem_records_submission.mpr hy) hr
            (by simp [Record.identity, hp, hid])
        exact Record.submission.inj heq
      by_cases hfp : x.requestFingerprint = s.fingerprint
      · left
        refine ⟨x.jobID, ?_, .submission x, hr, by simp [Record.identity, Creation.identity, hid],
          rfl, hfp⟩
        simp only [Creation.readRecord, bind_eq_ok, fetch_eq_ok, demand_eq_ok, pure_eq_ok, beq_iff_eq]
        exact ⟨x, hfind, (), hfp, rfl⟩
      · right
        refine ⟨⟨s, rfl⟩, ?_, .conflict x hx hid.1 hid.2 hfp⟩
        simp only [Creation.readRecord, bind_eq_error, fetch_eq_ok, demand, ensure_eq_error]
        exact .inr ⟨x, hfind, .inl ⟨beq_eq_false_iff_ne.mpr hfp, trivial⟩⟩
  | replay q =>
    cases r with
    | submission x => cases hid
    | replay x =>
      simp only [Record.identity, Creation.identity, Identity.replay.injEq] at hid
      have hx := mem_records_replay.mp hr
      have hfind : (db.dlqReplays.rows.find? fun y => y.scope == q.scope &&
          y.originalJobID == q.originalJobID && y.idempotencyKey == q.key) = some x := by
        refine find?_eq_some_of_unique hx (by simp [hid]) fun y hy hp => ?_
        simp only [Bool.and_eq_true, beq_iff_eq] at hp
        have heq : Record.replay y = .replay x :=
          DB.record_eq_of_identity (mem_records_replay.mpr hy) hr
            (by simp [Record.identity, hp, hid])
        exact Record.replay.inj heq
      left
      refine ⟨x.replacementJobID, ?_, .replay x, hr,
        by simp [Record.identity, Creation.identity, hid], rfl, trivial⟩
      simp only [Creation.readRecord, bind_eq_ok, fetch_eq_ok, pure_eq_ok]
      exact ⟨x, hfind, rfl⟩

/-! ### Rows the database refuses -/

/-- The rows of a valid call pass their checks, if its ids are its own. -/
theorem Birth.fits_or_taken (hg : b.Grounded db) (hv : b.creation.valid = true) :
    b.fits = true ∨ b.creation.Taken db := by
  cases b with
  | submission s => exact .inl hv
  | replay r original =>
    obtain ⟨hchecked, hscope, hid, j, hj, hjid⟩ := hg
    by_cases hnew : original.id = r.env.id₁
    · exact .inr (.inl ⟨j, hj, hjid.trans hnew⟩)
    · left
      have hkey : lengthBetween 1 255 r.key = true := hv
      have hjob : jobs.check (replacementJob r.env r.scope original) = true := by
        rw [← hscope]
        exact Job.check_eq_true.mpr (hchecked.replace hnew)
      have hbound : scopeBounded r.scope = true := hscope ▸ hchecked.scope
      have hother : r.env.id₁ ≠ r.originalJobID := fun heq => hnew (hid.trans heq.symm)
      have hevent := workAvailableEvent_check r.env.id₂ r.env.clock.start r.env.id₁ original.queue
        (le_refl 1)
      simp [Birth.fits, Birth.job, Birth.record, Birth.event, Record.check, dlqReplays, hjob, hbound,
        hkey, hother, outboxEvents, hevent]

/-- What the database refuses of a birth whose rows pass their checks clashes with a
row of the same id. -/
theorem Birth.insertJob_refused (hg : b.Grounded db) (h : b.insertJob db = .error f) :
    Answered db b.creation (.refused f) := by
  refine .schema (insertRow_cause h) fun hv => ?_
  rcases Birth.fits_or_taken hg hv with hfits | htaken
  · simp only [Birth.fits, Bool.and_eq_true] at hfits
    obtain ⟨x, hx, hclash⟩ := (insertRow_eq_error h).2 hfits.1.1
    have hid : x.id = b.job.id :=
      Option.some.inj (eq_of_sameKey (show sameKey Job.idKey x b.job = true from hclash))
    exact .inl ⟨x, hx, hid.trans b.job_id⟩
  · exact htaken

theorem Birth.insertEvent_eq_error (h : b.insertEvent db = .error f) :
    ∃ e, b.event = some e ∧
      insertRow .outboxEvents db.outbox e (reported "insert outbox event") = .error f := by
  rw [Birth.insertEvent_eq] at h
  cases he : b.event with
  | none =>
    rw [he] at h
    cases h
  | some e =>
    rw [he] at h
    exact ⟨e, rfl, h⟩

theorem Birth.insertEvent_cause (h : b.insertEvent db = .error f) : f.cause ≠ .check := by
  obtain ⟨e, -, hins⟩ := Birth.insertEvent_eq_error h
  exact insertRow_cause hins

theorem Birth.insertEvent_refused (hg : b.Grounded db) (h : b.insertEvent db = .error f) :
    Answered db b.creation (.refused f) := by
  obtain ⟨e, he, hins⟩ := Birth.insertEvent_eq_error h
  refine .schema (insertRow_cause hins) fun hv => ?_
  rcases Birth.fits_or_taken hg hv with hfits | htaken
  · simp only [Birth.fits, Bool.and_eq_true, he, Option.all_some] at hfits
    obtain ⟨x, hx, hclash⟩ := (insertRow_eq_error hins).2 hfits.2
    have hid : x.id = e.id :=
      Option.some.inj (eq_of_sameKey (show sameKey OutboxEvent.idKey x e = true from hclash))
    exact .inr ⟨x, hx, hid.trans (Birth.event_eq_some he).1⟩
  · exact htaken

theorem Birth.insertRecord_cause (h : b.insertRecord db = .error f) : f.cause ≠ .check := by
  unfold Birth.insertRecord at h
  split at h
  all_goals
    simp only [bind_eq_error, pure_ne_error, and_false, exists_false, or_false] at h
    exact insertRow_cause h

/-- A record that clashes with no record of its identity clashes with one of its job. -/
theorem Birth.insertRecord_refused (hg : b.Grounded db)
    (hnamed : ∀ r ∈ db.records, ∃ j ∈ db.jobs.rows, j.id = r.jobID ∧ j.scope = r.scope)
    (hfree : ∀ r ∈ db.records, r.identity ≠ b.creation.identity)
    (h : b.insertRecord db = .error f) : Answered db b.creation (.refused f) := by
  refine .schema (Birth.insertRecord_cause h) fun hv => ?_
  rcases Birth.fits_or_taken hg hv with hfits | htaken
  · simp only [Birth.fits, Bool.and_eq_true] at hfits
    -- Were there no clash, the record would have been accepted.
    have hclash : ¬ ∀ x ∈ db.records, x.clash b.record = false := by
      intro hclear
      obtain ⟨db', hok⟩ := Birth.insertRecord_ok.mpr ⟨hfits.1.2, hclear⟩
      rw [h] at hok
      cases hok
    push Not at hclash
    obtain ⟨x, hx, hclash⟩ := hclash
    rw [Bool.ne_false_iff] at hclash
    obtain ⟨j, hj, hjid, -⟩ := hnamed x hx
    have hne := hfree x hx
    rw [← b.record_identity] at hne
    refine .inl ⟨j, hj, hjid.trans ?_⟩
    rw [← b.job_id, ← b.record_jobID]
    exact Record.jobID_of_clash hclash hne
  · exact htaken

/-! ### Every statement -/

def Identity.scope : Identity → String
  | .submission scope _ => scope
  | .replay scope _ _ => scope

theorem Record.scope_eq {r : Record} (h : r.identity = c.identity) : r.scope = c.scope := by
  have hr : r.identity.scope = r.scope := by cases r <;> rfl
  have hc : c.identity.scope = c.scope := by cases c <;> rfl
  rw [← hr, h, hc]

/-- The job that a record names is read in the record's scope. -/
theorem getByID_of_mem {j : Job} (hj : j ∈ db.jobs.rows) :
    getByID db j.scope j.id = .ok (scanJob j) := by
  rw [getByID, jobInScope_of_mem hj]
  rfl

/-- So is the job of an identity that is taken. -/
theorem getByID_of_identity {r : Record}
    (hnamed : ∀ r ∈ db.records, ∃ j ∈ db.jobs.rows, j.id = r.jobID ∧ j.scope = r.scope)
    (hr : r ∈ db.records) (hid : r.identity = c.identity) :
    ∃ j, getByID db c.scope r.jobID = .ok (scanJob j) ∧ j.id = r.jobID := by
  obtain ⟨j, hj, hjid, hscope⟩ := hnamed r hr
  refine ⟨j, ?_, hjid⟩
  rw [← hjid, ← Record.scope_eq hid, ← hscope]
  exact getByID_of_mem hj

theorem demand_eq_error {x : Bool} {e : StoreError} (h : demand x e = .error f) :
    x = false ∧ f = ⟨e, .check⟩ := by
  rw [demand, ensure_eq_error] at h
  exact ⟨h.1, h.2.symm⟩

theorem fetch_eq_error {α : Type} {x : Option α} {e : StoreError} (h : fetch x e = .error f) :
    f.cause = .check := by
  rw [fetch, orFail_eq_error] at h
  rw [← h.2]

theorem Stage.next_grounded (h : ∀ b, p.birth = some b → b.Grounded db) :
    ∀ b, (p.next db).birth = some b → b.Grounded db := by
  have hnone : ∀ {c : Creation} {o : Outcome} {b : Birth},
      (Stage.returned c o).birth = some b → b.Grounded db := by
    intro c o b hb
    cases hb
  cases p with
  | readSubmissionTime s =>
    intro b hb
    cases hb
    trivial
  | lockOriginal r =>
    refine goOn_cases (P := fun p => ∀ b, p.birth = some b → b.Grounded db) ?_
      (fun f _ b => hnone)
    intro original horiginal b hb
    cases hb
    simp only [bind_eq_ok, fetch_eq_ok, pure_eq_ok] at horiginal
    obtain ⟨j, hj, -, -, rfl⟩ := horiginal
    obtain ⟨hmem, hid, hscope⟩ := jobInScope_eq_some hj
    exact ⟨db.job_checked hmem, hscope, hid, j, hmem, rfl⟩
  | readEntry r original | insertJob b' | insertEvent b' =>
    exact goOn_cases (P := fun p => ∀ b, p.birth = some b → b.Grounded db) (fun _ _ => h)
      (fun f _ b => hnone)
  | insertRecord b' =>
    rw [Stage.next]
    split_ifs
    · exact h
    · exact goOn_cases (P := fun p => ∀ b, p.birth = some b → b.Grounded db) (fun _ _ => h)
        (fun f _ b => hnone)
  | readReplayTime r original | commit b' | returned c o => exact h
  | beginSubmit s | beginReplay r | rollback b' =>
    intro b hb
    cases hb
  | _ =>
    exact goOn_cases (P := fun p => ∀ b, p.birth = some b → b.Grounded db)
      (fun _ _ b hb => by cases hb) (fun f _ b => hnone)

theorem Stage.next_informed
    (hnamed : ∀ r ∈ db.records, ∃ j ∈ db.jobs.rows, j.id = r.jobID ∧ j.scope = r.scope)
    (hg : ∀ b, p.birth = some b → b.Grounded db) (h : p.Informed db) :
    (p.next db).Informed db := by
  cases p with
  | checkQueue s =>
    refine goOn_cases (fun _ _ => trivial) fun f hf => ?_
    obtain ⟨hnone, rfl⟩ := demand_eq_error hf
    refine Answered.unknownQueue fun q hq hname => ?_
    exact List.any_eq_false.mp hnone q hq (beq_iff_eq.mpr hname)
  | route | lockQueue =>
    exact goOn_cases (fun _ _ => trivial) fun f hf => .unready (fetch_eq_error hf)
  | lockOriginal r =>
    refine goOn_cases (fun _ _ => trivial) fun f hf => .unready ?_
    simp only [bind_eq_error, pure_ne_error, and_false, exists_false, or_false] at hf
    rcases hf with hf | ⟨j, -, hf⟩
    · exact fetch_eq_error hf
    · rw [(demand_eq_error hf).2]
  | readEntry r original =>
    refine goOn_cases (fun _ _ => trivial) fun f hf => .unready ?_
    rw [(demand_eq_error hf).2]
  | insertJob b =>
    exact goOn_cases (fun _ _ => trivial) fun f hf => Birth.insertJob_refused (hg b rfl) hf
  | insertRecord b =>
    rw [Stage.next]
    split_ifs with howned
    · -- The row that was in the way is committed.
      obtain ⟨r, hr, hid⟩ := List.any_eq_true.mp howned
      exact ⟨r, hr, of_decide_eq_true hid⟩
    · refine goOn_cases (fun _ _ => trivial) fun f hf => ?_
      refine Birth.insertRecord_refused (hg b rfl) hnamed (fun r hr hid => howned ?_) hf
      exact List.any_eq_true.mpr ⟨r, hr, decide_eq_true hid⟩
  | insertEvent b =>
    exact goOn_cases (fun _ _ => trivial) fun f hf => Birth.insertEvent_refused (hg b rfl) hf
  | rollback b => exact h
  | readRecord c =>
    rw [Stage.next]
    rcases Creation.readRecord_found h with ⟨jobID, hread, hknown⟩ | ⟨-, hread, hanswer⟩
    · rw [hread]
      exact hknown
    · rw [hread]
      exact hanswer
  | readJob c jobID =>
    obtain ⟨r, hr, hid, rfl, hagrees⟩ := h
    obtain ⟨j, hread, hjid⟩ := getByID_of_identity hnamed hr hid
    rw [Stage.next, hread]
    exact Answered.found r hr hid hjid.symm hagrees
  | returned c o => exact h
  | _ => trivial

end Knowledge

/-! ## The invariant -/

/-- What holds of a contest between any two steps. -/
structure Coherent (s : Contest) : Prop where
  /-- A record names a job of its scope, and every job is named by one record. -/
  named : ∀ r ∈ s.world.db.records, ∃ j ∈ s.world.db.jobs.rows, j.id = r.jobID ∧ j.scope = r.scope
  born : ∀ j ∈ s.world.db.jobs.rows,
    s.world.db.records.countP (fun r => decide (r.jobID = j.id)) = 1
  grounded : ∀ p ∈ s.calls, ∀ b, p.birth = some b → b.Grounded s.world.db
  informed : ∀ p ∈ s.calls, p.Informed s.world.db
  admitted : ∀ p ∈ s.calls, p.Admitted s.world.db
  apart : ∀ (m n : ℕ) (p q : Stage), s.calls[m]? = some p → s.calls[n]? = some q → m ≠ n →
    p.Apart q

section Invariant

variable {s s' : Contest} {t : Deed} {n : ℕ} {p p' : Stage} {db : DB} {b : Birth} {w : World}

theorem Contest.Opening.coherent (h : s.Opening) : Coherent s := by
  have hrecords : s.world.db.records = [] := by
    unfold DB.records
    rw [h.initial.idempotency, h.initial.dlqReplays]
    rfl
  refine ⟨?_, ?_, ?_, ?_, ?_, ?_⟩
  · simp [hrecords]
  · simp [h.initial.jobs]
  all_goals simp [h.calls]

/-- Among the calls is a new stage of one of them, and otherwise what was there. -/
theorem Coherent.withCalls (h : Coherent s) {calls : List Stage}
    (hgrounded : ∀ b, p'.birth = some b → b.Grounded s.world.db)
    (hinformed : p'.Informed s.world.db) (hadmitted : p'.Admitted s.world.db)
    (hmem : ∀ q ∈ calls, q ∈ s.calls ∨ q = p')
    (hapart : ∀ (k m : ℕ) (q q' : Stage), calls[k]? = some q → calls[m]? = some q' → k ≠ m →
      q.Apart q') : Coherent ⟨s.world, calls⟩ := by
  have hcall : ∀ q ∈ calls, (∀ b, q.birth = some b → b.Grounded s.world.db) ∧
      q.Informed s.world.db ∧ q.Admitted s.world.db := by
    intro q hq
    rcases hmem q hq with hold | rfl
    · exact ⟨h.grounded q hold, h.informed q hold, h.admitted q hold⟩
    · exact ⟨hgrounded, hinformed, hadmitted⟩
  exact ⟨h.named, h.born, fun q hq => (hcall q hq).1, fun q hq => (hcall q hq).2.1,
    fun q hq => (hcall q hq).2.2, hapart⟩

/-- A call moves on, and the others stay where they are. -/
theorem Coherent.set (h : Coherent s) (hgrounded : ∀ b, p'.birth = some b → b.Grounded s.world.db)
    (hinformed : p'.Informed s.world.db) (hadmitted : p'.Admitted s.world.db)
    (hapart : ∀ m q, s.calls[m]? = some q → m ≠ n → p'.Apart q) :
    Coherent ⟨s.world, s.calls.set n p'⟩ := by
  refine h.withCalls hgrounded hinformed hadmitted (fun q hq => List.mem_or_eq_of_mem_set hq) ?_
  · intro k m q q' hq hq' hkm
    rw [List.getElem?_set] at hq hq'
    split_ifs at hq hq' with hk hkl hm hml hml
    · exact absurd (hk.symm.trans hm) hkm
    · cases hq
      exact hapart m q' hq' (fun heq => hm heq.symm)
    · cases hq'
      exact (hapart k q hq (fun heq => hk heq.symm)).symm
    · exact h.apart k m q q' hq hq' hkm

theorem Coherent.called (h : Coherent s) (c : Creation) :
    Coherent ⟨s.world, s.calls ++ [c.start]⟩ := by
  have hbare : c.start.Bare := by cases c <;> exact ⟨rfl, rfl, rfl⟩
  have hbirth : c.start.birth = none := by cases c <;> rfl
  have hinformed : c.start.Informed s.world.db := by cases c <;> trivial
  refine h.withCalls (of_none hbirth) hinformed hbare.admitted ?_ ?_
  · intro q hq
    exact (List.mem_append.mp hq).imp_right List.mem_singleton.mp
  · intro k m q q' hq hq' hkm
    -- Either index is of an old call, or of the new one, which holds nothing.
    have hcase : ∀ {i : ℕ} {x : Stage}, (s.calls ++ [c.start])[i]? = some x →
        s.calls[i]? = some x ∨ x.Bare := by
      intro i x hx
      by_cases hi : i < s.calls.length
      · rw [List.getElem?_append_left hi] at hx
        exact .inl hx
      · rw [List.getElem?_append_right (by omega)] at hx
        have hx' := List.mem_of_getElem? hx
        rw [List.mem_singleton.mp hx']
        exact .inr hbare
    rcases hcase hq with hq | hbare
    · rcases hcase hq' with hq' | hbare'
      · exact h.apart k m q q' hq hq' hkm
      · exact hbare'.apart.symm
    · exact hbare.apart

/-- Rows that are committed spoil no rows that are apart from them. -/
theorem Coherent.grow (h : Coherent s) (happ : b.writes.Applied s.world.db db)
    (hadm : (Stage.commit b).Admitted s.world.db) (hapart : ∀ p ∈ s.calls, (Stage.commit b).Apart p) :
    Coherent ⟨⟨db, s.world.clock⟩, s.calls⟩ := by
  have hlater := Birth.later happ
  have hfresh : ∀ j ∈ s.world.db.jobs.rows, j.id ≠ b.job.id := by
    intro j hj hid
    have hclash := (hadm.job b.job rfl).2 j hj
    have hsame : sameKey Job.idKey j b.job = true := sameKey_eq_true.mpr ⟨b.job.id, congrArg some hid, rfl⟩
    rw [show jobs.clash j b.job = sameKey Job.idKey j b.job from rfl, hsame] at hclash
    cases hclash
  refine ⟨?_, ?_, fun p hp b hb => (h.grounded p hp b hb).later hlater,
    fun p hp => (h.informed p hp).later hlater, ?_, h.apart⟩
  · intro r hr
    rcases (Birth.mem_records happ).mp hr with hold | rfl
    · obtain ⟨j, hj, hid, hscope⟩ := h.named r hold
      exact ⟨j, (Birth.mem_jobs happ).mpr (.inl hj), hid, hscope⟩
    · exact ⟨b.job, (Birth.mem_jobs happ).mpr (.inr rfl), b.record_jobID.symm, b.record_scope.symm⟩
  · intro j hj
    show db.records.countP _ = 1
    rw [Birth.records_countP happ, b.record_jobID]
    rcases (Birth.mem_jobs happ).mp hj with hold | rfl
    · have hne : ¬ b.job.id = j.id := fun hid => hfresh j hold hid.symm
      rw [h.born j hold]
      simp [hne]
    · have hnone : s.world.db.records.countP (fun r => decide (r.jobID = b.job.id)) = 0 := by
        rw [List.countP_eq_zero]
        intro r hr hid
        obtain ⟨j, hj, hjid, -⟩ := h.named r hr
        exact hfresh j hj (hjid.trans (of_decide_eq_true hid))
      rw [hnone]
      simp
  · intro p hp
    have ha := h.admitted p hp
    have hap := hapart p hp
    refine ⟨fun j hj => ⟨(ha.job j hj).1, ?_⟩, fun r hr => ⟨(ha.record r hr).1, ?_⟩,
      fun e he => ⟨(ha.event e he).1, ?_⟩⟩
    · intro x hx
      rcases (Birth.mem_jobs happ).mp hx with hold | rfl
      · exact (ha.job j hj).2 x hold
      · exact hap.job b.job rfl j hj
    · intro x hx
      rcases (Birth.mem_records happ).mp hx with hold | rfl
      · exact (ha.record r hr).2 x hold
      · exact hap.record b.record rfl r hr
    · intro x hx
      have hx' : x ∈ s.world.db.outbox.rows ++ b.event.toList := happ.outbox ▸ hx
      rcases List.mem_append.mp hx' with hold | hnew
      · exact (ha.event e he).2 x hold
      · exact hap.event x (Option.mem_toList.mp hnew) e he

/-- The rest of the service leaves everything a call relies on. -/
theorem Coherent.service (h : Coherent s) (hspared : Spared s.world.db w.db)
    (hfree : ∀ p ∈ s.calls, ∀ e, p.eventRow = some e →
      ∀ x ∈ w.db.outbox.rows, outboxEvents.clash x e = false) :
    Coherent ⟨w, s.calls⟩ := by
  have hlater := hspared.later
  refine ⟨?_, ?_, fun p hp b hb => (h.grounded p hp b hb).later hlater,
    fun p hp => (h.informed p hp).later hlater, ?_, h.apart⟩
  · show ∀ r ∈ w.db.records, ∃ j ∈ w.db.jobs.rows, j.id = r.jobID ∧ j.scope = r.scope
    rw [hspared.records]
    intro r hr
    obtain ⟨j, hj, hid, hscope⟩ := h.named r hr
    obtain ⟨j', hj', hid', hscope'⟩ := hspared.job hj
    exact ⟨j', hj', hid'.trans hid, hscope'.trans hscope⟩
  · show ∀ j ∈ w.db.jobs.rows, w.db.records.countP (fun r => decide (r.jobID = j.id)) = 1
    rw [hspared.records]
    intro j' hj'
    obtain ⟨j, hj, hid⟩ := hspared.origin hj'
    rw [← hid]
    exact h.born j hj
  · intro p hp
    have ha := h.admitted p hp
    refine ⟨fun j hj => ⟨(ha.job j hj).1, ?_⟩, fun r hr => ⟨(ha.record r hr).1, ?_⟩,
      fun e he => ⟨(ha.event e he).1, hfree p hp e he⟩⟩
    · intro x hx
      -- A job is the same key whatever became of its row.
      obtain ⟨x₀, hx₀, hid⟩ := hspared.origin hx
      have hclash := (ha.job j hj).2 x₀ hx₀
      have hkeys : jobs.clash x j = jobs.clash x₀ j := by
        show sameKey Job.idKey x j = sameKey Job.idKey x₀ j
        unfold sameKey Job.idKey
        rw [hid]
      rw [hkeys]
      exact hclash
    · show ∀ x ∈ w.db.records, x.clash r = false
      rw [hspared.records]
      exact (ha.record r hr).2

theorem mem_of_eraseIdx {m : ℕ} {q : Stage} (hq : s.calls[m]? = some q) (hne : m ≠ n) :
    q ∈ s.calls.eraseIdx n := List.mem_eraseIdx_iff_getElem?.mpr ⟨m, hne, hq⟩

/-- **Every step keeps the invariant.** -/
theorem ContestStep.coherent (hs : ContestStep s t s') (h : Coherent s) : Coherent s' := by
  cases hs with
  | called c => exact h.called c
  | @statement n p call running free =>
    have hp := List.mem_of_getElem? call
    have hturns : p.Turns s.world.db (p.next s.world.db) := Stage.next_turns running
    refine h.set (Stage.next_grounded (h.grounded p hp))
      (Stage.next_informed h.named (h.grounded p hp) (h.informed p hp))
      (hturns.admitted (h.admitted p hp)) fun m q hq hne => ?_
    refine hturns.apart (h.apart n m p q call hq (Ne.symm hne)) ?_
    exact List.all_eq_true.mp free q (mem_of_eraseIdx hq hne)
  | @committed n b db told call run =>
    have hcommit := List.mem_of_getElem? call
    have happ := Birth.commit_eq_ok run
    -- The call lets its rows go, they are committed, and then it returns.
    have hlet : Coherent ⟨s.world, s.calls.set n (.returned b.creation .broken)⟩ :=
      h.set (of_none rfl) .broken (Stage.bare_returned _ _).admitted
        fun m q _ _ => (Stage.bare_returned _ _).apart
    have hgrown := hlet.grow happ (h.admitted _ hcommit) (by
      intro q hq
      obtain ⟨m, hm⟩ := List.mem_iff_getElem?.mp hq
      rw [List.getElem?_set] at hm
      split_ifs at hm with hnm
      · cases hm
        exact (Stage.bare_returned _ _).apart.symm
      · exact h.apart n m _ q call hm hnm)
    have hanswered : (Stage.returned b.creation (b.outcome told)).Informed db := by
      cases told with
      | true =>
        exact .made b.record ((Birth.mem_records happ).mpr (.inr rfl)) b.record_identity
          (b.record_jobID.trans b.view_id.symm) b.agrees
      | false => exact .broken
    have hreturned := hgrown.set (n := n) (of_none rfl) hanswered
      (Stage.bare_returned _ _).admitted fun m q _ _ => (Stage.bare_returned _ _).apart
    rw [List.set_set] at hreturned
    exact hreturned
  | failed call live =>
    exact h.set (of_none rfl) .broken (Stage.bare_returned _ _).admitted
      fun m q _ _ => (Stage.bare_returned _ _).apart
  | service step other free => exact h.service (step.spared other) free

end Invariant

end TaskForge
