/-
The publishers (`internal/outbox/publisher.go`).

A publisher claims a batch of due events in one transaction, sends each to the broker
with no transaction open, and marks each in a transaction of its own. Any number of
them work on one outbox, each may be interrupted between any two of these steps, and
the broker or the database may fail, or do what it was asked and not be heard.

What a publisher holds in memory is stale from the moment its claim commits. That is
harmless: the columns an envelope is made of never change (`Delivered.subject`), and a
row leaves `PENDING` only under the hand of a publisher to whom the broker has said yes.

`drain` runs passes back to back while each claims a full batch and none of its events
fails. Such a pass leaves every event it claimed published, so the events that are
pending and in nobody's hands pay for the passes (`drainBound`).
-/
import TaskForge.Rendering

open Relational Fallible Json

namespace TaskForge

/-! ## Bodies -/

/-- `outbox.TraceContext`, encoded. -/
def TraceContext.text (t : TraceContext) : Text :=
  objectText wire ([("traceparent".toList, encode wire (stringValue t.traceparent))] ++
    omitEmpty "tracestate" t.tracestate)

/-- `outbox.WorkAvailableData`, encoded. -/
def WorkAvailableData.text (d : WorkAvailableData) : Text :=
  objectText wire [("queue".toList, encode wire (stringValue d.queue)),
    ("job_id".toList, encode wire (stringValue (uuidString d.jobID)))]

/-- `json.Marshal` of an envelope; none if its instant cannot be encoded. -/
def Envelope.body (m : Envelope) : Option Text :=
  (timeText m.occurredAt).map fun occurredAt => objectText wire
    ([("event_id".toList, encode wire (stringValue (uuidString m.eventID))),
      ("event_type".toList, encode wire (stringValue m.eventType)),
      ("schema_version".toList, encode wire (intValue m.schemaVersion)),
      ("occurred_at".toList, occurredAt)] ++
      (m.trace.map fun t => ("trace".toList, t.text)).toList ++
      [("data".toList, m.data.text)])

/-- `Event.Body` -/
def Event.body (e : Event) : Option Text := e.envelope.body

/-! ## One publisher -/

/-- `PublisherConfig`, as a pass reads it. The timeout is in microseconds. -/
structure PublisherConfig where
  batchSize : Int
  claimTimeout : Int

/-- `NewPublisher`: the defaults of a configuration. -/
def newPublisher (cfg : PublisherConfig) : PublisherConfig where
  batchSize := if cfg.batchSize < 1 then 50 else cfg.batchSize
  claimTimeout := if cfg.claimTimeout ≤ 0 then 30000000 else cfg.claimTimeout

/-- The batch size a pass works with. -/
def PublisherConfig.batch (cfg : PublisherConfig) : ℕ := (newPublisher cfg).batchSize.toNat

theorem PublisherConfig.batch_pos (cfg : PublisherConfig) : 1 ≤ cfg.batch := by
  unfold PublisherConfig.batch newPublisher
  by_cases h : cfg.batchSize < 1
  · simp [h]
  · simp only [h, if_false]
    omega

/-- `Stats` -/
structure Stats where
  claimed : ℕ
  published : ℕ
  failed : ℕ
  alreadyPublished : ℕ
deriving DecidableEq

/-- `drain` goes on after a pass with these numbers, if nothing has canceled it. -/
def Stats.goesOn (st : Stats) (batch : ℕ) : Bool := decide (batch ≤ st.claimed) && st.failed == 0

/-- `RunOnce`'s counting of a mark that was answered. -/
def Stats.mark (st : Stats) (marked : Bool) : Stats :=
  if marked then { st with published := st.published + 1 }
  else { st with alreadyPublished := st.alreadyPublished + 1 }

def Stats.fail (st : Stats) : Stats := { st with failed := st.failed + 1 }

/-- Where a publisher stands in `drain`, and what it holds. -/
inductive Publisher where
  /-- Between two ticks, or not running. -/
  | idle
  /-- Before `ClaimDue`. -/
  | scanning
  /-- At the head of the loop over the batch. -/
  | working (stats : Stats) (rest : List Event)
  /-- The broker has accepted the event. -/
  | sent (stats : Stats) (e : Event) (rest : List Event)
  /-- The event has no body, or the broker returned an error. -/
  | refused (stats : Stats) (e : Event) (cause : String) (rest : List Event)

/-- The events a publisher holds. -/
def Publisher.held : Publisher → List Event
  | .idle | .scanning => []
  | .working _ rest => rest
  | .sent _ e rest | .refused _ e _ rest => e :: rest

/-! ## All publishers -/

/-- The service, its publishers, and every body the broker has ever accepted. -/
structure Publishing where
  world : World
  publishers : ℕ → Publisher
  accepted : List Text

def Publishing.db (s : Publishing) : DB := s.world.db

/-- The rows of the outbox. -/
def Publishing.events (s : Publishing) : List OutboxEvent := s.world.db.outbox.rows

/-- Another database, at the same time. -/
def Publishing.commit (s : Publishing) (db : DB) : Publishing :=
  { s with world := ⟨db, s.world.clock⟩ }

/-- The publisher `i` moves on. -/
def Publishing.move (s : Publishing) (i : ℕ) (p : Publisher) : Publishing :=
  { s with publishers := Function.update s.publishers i p }

/-- The broker takes a body. -/
def Publishing.accept (s : Publishing) (body : Text) : Publishing :=
  { s with accepted := body :: s.accepted }

/-- Who did something. -/
inductive PublishLabel where
  | store
  | tick (i : ℕ)
  | turn (i : ℕ)
  | crash (i : ℕ)
deriving DecidableEq

/-- One step. Every call to the database and to the broker may fail, or be carried out
and reported as failed. -/
inductive PublishStep (cfg : ℕ → PublisherConfig) : Publishing → PublishLabel → Publishing → Prop
  /-- A transaction of the control plane. -/
  | store {s : Publishing} {l : Label} {w : World} (step : Step s.world l w) :
      PublishStep cfg s .store { s with world := w }
  /-- The ticker fires. -/
  | tick {s : Publishing} {i : ℕ} (idle : s.publishers i = .idle) :
      PublishStep cfg s (.tick i) (s.move i .scanning)
  /-- The process dies. -/
  | crash {s : Publishing} {i : ℕ} : PublishStep cfg s (.crash i) (s.move i .idle)
  /-- `ClaimDue` returns a batch. -/
  | claimed {s : Publishing} {i : ℕ} {now : Int} {locked : List UUID} {events : List Event} {db : DB}
      (at_ : s.publishers i = .scanning)
      (run : claimDue now (cfg i).batch (newPublisher (cfg i)).claimTimeout locked s.db =
        .ok (events, db)) :
      PublishStep cfg s (.turn i)
        ((s.commit db).move i (.working ⟨events.length, 0, 0, 0⟩ events))
  /-- `ClaimDue` fails after its commit: the pass ends, and `drain` with it. -/
  | claimLost {s : Publishing} {i : ℕ} {now : Int} {locked : List UUID} {events : List Event} {db : DB}
      (at_ : s.publishers i = .scanning)
      (run : claimDue now (cfg i).batch (newPublisher (cfg i)).claimTimeout locked s.db =
        .ok (events, db)) :
      PublishStep cfg s (.turn i) ((s.commit db).move i .idle)
  /-- `ClaimDue` fails. -/
  | claimFailed {s : Publishing} {i : ℕ} (at_ : s.publishers i = .scanning) :
      PublishStep cfg s (.turn i) (s.move i .idle)
  /-- The context is canceled, within the batch or after it. -/
  | canceled {s : Publishing} {i : ℕ} {st : Stats} {rest : List Event}
      (at_ : s.publishers i = .working st rest) : PublishStep cfg s (.turn i) (s.move i .idle)
  /-- The event cannot be encoded. -/
  | unencoded {s : Publishing} {i : ℕ} {st : Stats} {e : Event} {rest : List Event} {cause : String}
      (at_ : s.publishers i = .working st (e :: rest)) (body : e.body = none) :
      PublishStep cfg s (.turn i) (s.move i (.refused st.fail e cause rest))
  /-- `Publish` returns no error. -/
  | published {s : Publishing} {i : ℕ} {st : Stats} {e : Event} {rest : List Event} {body : Text}
      (at_ : s.publishers i = .working st (e :: rest)) (body_eq : e.body = some body) :
      PublishStep cfg s (.turn i) ((s.accept body).move i (.sent st e rest))
  /-- `Publish` returns an error; the broker may have taken the body all the same. -/
  | unpublished {s : Publishing} {i : ℕ} {st : Stats} {e : Event} {rest : List Event} {body : Text}
      {cause : String} (taken : Bool) (at_ : s.publishers i = .working st (e :: rest))
      (body_eq : e.body = some body) :
      PublishStep cfg s (.turn i)
        ((if taken then s.accept body else s).move i (.refused st.fail e cause rest))
  /-- `MarkPublished` answers. -/
  | marked {s : Publishing} {i : ℕ} {st : Stats} {e : Event} {rest : List Event} {now : Int}
      {changed : Bool} {db : DB} (at_ : s.publishers i = .sent st e rest)
      (run : markPublished now e.id s.db = .ok (changed, db)) :
      PublishStep cfg s (.turn i) ((s.commit db).move i (.working (st.mark changed) rest))
  /-- `MarkPublished` fails after its commit. -/
  | markLost {s : Publishing} {i : ℕ} {st : Stats} {e : Event} {rest : List Event} {now : Int}
      {changed : Bool} {db : DB} (at_ : s.publishers i = .sent st e rest)
      (run : markPublished now e.id s.db = .ok (changed, db)) :
      PublishStep cfg s (.turn i) ((s.commit db).move i (.working st.fail rest))
  /-- `MarkPublished` fails. -/
  | markFailed {s : Publishing} {i : ℕ} {st : Stats} {e : Event} {rest : List Event}
      (at_ : s.publishers i = .sent st e rest) :
      PublishStep cfg s (.turn i) (s.move i (.working st.fail rest))
  /-- `recordFailure`, whether or not it is heard that it was stored. -/
  | recorded {s : Publishing} {i : ℕ} {st : Stats} {e : Event} {cause : String} {rest : List Event}
      {now retryAfter : Int} {u : Unit} {db : DB} (at_ : s.publishers i = .refused st e cause rest)
      (run : recordFailure now e.id cause retryAfter s.db = .ok (u, db)) :
      PublishStep cfg s (.turn i) ((s.commit db).move i (.working st rest))
  /-- `recordFailure` stores nothing, and says so in the log only. -/
  | unrecorded {s : Publishing} {i : ℕ} {st : Stats} {e : Event} {cause : String} {rest : List Event}
      (at_ : s.publishers i = .refused st e cause rest) :
      PublishStep cfg s (.turn i) (s.move i (.working st rest))
  /-- The batch is done: `drain` goes on, or returns. -/
  | finished {s : Publishing} {i : ℕ} {st : Stats} (at_ : s.publishers i = .working st []) :
      PublishStep cfg s (.turn i)
        (s.move i (if st.goesOn (cfg i).batch then .scanning else .idle))

/-- No publisher is running, and the broker has accepted the body of every event that
is published already. -/
structure Publishing.Opening (s : Publishing) : Prop where
  idle : ∀ i, s.publishers i = .idle
  published : ∀ e ∈ s.events, e.status = .published →
    ∃ body, (scanEvent e).body = some body ∧ body ∈ s.accepted

section Fields

variable (s : Publishing) (db : DB) (i : ℕ) (p : Publisher) (body : Text)

@[simp] theorem commit_db : (s.commit db).db = db := rfl
@[simp] theorem move_db : (s.move i p).db = s.db := rfl
@[simp] theorem move_publishers :
    (s.move i p).publishers = Function.update s.publishers i p := rfl
@[simp] theorem accept_db : (s.accept body).db = s.db := rfl

end Fields

/-! ## What the calls do -/

section Calls

variable {db db' : DB} {now : Int} {e e' : OutboxEvent}

/-- An envelope is made of columns that stay. -/
theorem Delivered.envelope (h : Delivered e e') :
    (scanEvent e').envelope = (scanEvent e).envelope := by
  have hsubject := h.subject
  simp only [OutboxEvent.subject, Prod.mk.injEq] at hsubject
  obtain ⟨hid, htype, hversion, hpayload, hcreated, -, -, hparent, hstate⟩ := hsubject
  simp only [scanEvent, Event.envelope, hid, htype, hversion, hpayload, hcreated, hparent, hstate]

/-- The batch of a claim: the rows of the ids it selected, all of them pending. -/
theorem claimDue_batch {limit : ℕ} {timeout : Int} {locked : List UUID} {events : List Event}
    (h : claimDue now limit timeout locked db = .ok (events, db')) :
    ∃ due : List UUID, due.length ≤ limit ∧
      events = (db'.outbox.rows.filter fun r => due.contains r.id).map scanEvent ∧
      ∀ r ∈ db'.outbox.rows, r.id ∈ due → r.status = .pending := by
  simp only [claimDue, bind_eq_ok, pure_eq_ok, Prod.mk.injEq] at h
  obtain ⟨outbox, hupd, rfl, rfl⟩ := h
  refine ⟨dueEvents db now limit locked, ?_, rfl, ?_⟩
  · rw [dueEvents, List.length_map]
    exact List.length_take_le _ _
  · intro r hr hdue
    rw [show ({ db with outbox := outbox } : DB).outbox.rows = _ from
      Table.update_rows (orRefused_eq_ok.mp hupd)] at hr
    obtain ⟨x, hx, rfl⟩ := List.mem_map.mp hr
    -- The update touches neither the id nor the status of a row.
    have hsame : ∀ y : OutboxEvent, (hiddenEvent now timeout y).id = y.id ∧
        (hiddenEvent now timeout y).status = y.status := fun y => ⟨rfl, rfl⟩
    split_ifs at hdue ⊢ with hsel
    · exact (hsame x).2.trans (pending_of_mem_dueEvents hx hdue)
    · exact pending_of_mem_dueEvents hx hdue

theorem length_filter_ids_le (db : DB) (ids : List UUID) :
    (db.outbox.rows.filter fun r => ids.contains r.id).length ≤ ids.length := by
  have hnodup : ((db.outbox.rows.filter fun r => ids.contains r.id).map OutboxEvent.id).Nodup := by
    refine List.Nodup.map_on ?_ (db.outbox.nodup.filter _)
    intro x hx y hy hid
    exact db.event_eq_of_id (List.mem_filter.mp hx).1 (List.mem_filter.mp hy).1 hid
  have hsub : (db.outbox.rows.filter fun r => ids.contains r.id).map OutboxEvent.id ⊆ ids := by
    intro id hid
    obtain ⟨r, hr, rfl⟩ := List.mem_map.mp hid
    exact List.contains_iff_mem.mp (List.mem_filter.mp hr).2
  have hle := (List.subperm_of_subset hnodup hsub).length_le
  rwa [List.length_map] at hle

/-- A due event is claimed by a scan with room for the whole outbox. -/
theorem claimDue_takes (he : e ∈ db.outbox.rows) (hp : e.status = .pending)
    (hdue : e.availableAt ≤ now) {limit : ℕ} (hroom : db.outbox.rows.length ≤ limit) (timeout : Int) :
    ∃ events db', claimDue now limit timeout [] db = .ok (events, db') ∧
      ∃ x ∈ events, x.id = e.id ∧ x.envelope = (scanEvent e).envelope := by
  obtain ⟨outbox, hupd⟩ := db.outbox.update_ok (p := fun e => (dueEvents db now limit []).contains e.id)
    (f := hiddenEvent now timeout) (fun x hx _ => db.outbox.checked x hx) (fun _ _ => rfl)
  have hselected : e.id ∈ dueEvents db now limit [] := by
    refine List.mem_map_of_mem ?_
    rw [List.take_of_length_le]
    · refine List.mem_mergeSort.mpr (List.mem_filter.mpr ⟨he, ?_⟩)
      simp [isDueEvent, hp, hdue]
    · rw [List.length_mergeSort]
      exact (List.length_filter_le _ _).trans hroom
  have hrun : claimDue now limit timeout [] db =
      .ok ((outbox.rows.filter fun e => (dueEvents db now limit []).contains e.id).map scanEvent,
        { db with outbox := outbox }) := by
    simp only [claimDue, updateRows, hupd]
    rfl
  obtain ⟨e', he', hdelivered⟩ := (OutboxCall.moved (run_claimDue hrun)).kept e he
  refine ⟨_, _, hrun, scanEvent e', ?_, hdelivered.id, hdelivered.envelope⟩
  refine List.mem_map_of_mem (List.mem_filter.mpr ⟨he', ?_⟩)
  rw [hdelivered.id]
  exact List.contains_iff_mem.mpr hselected

/-- A transaction of the control plane appends events that are pending. -/
theorem Lawful.events_pending {env : Env} {id : UUID} {writes : Writes}
    (h : Lawful env db id writes) : ∀ e ∈ writes.events, e.status = .pending := by
  intro e he
  cases h with
  | submit scope key req trace unborn new queue =>
    simp only [submitWrites] at he
    split_ifs at he
    · cases he
    · rw [List.mem_singleton.mp he]
      rfl
  | finalize scope o d j a l holds scope_eq ends decision identity =>
    rw [finalize_event_mem he]
    rfl
  | replay | promote | renotify =>
    rw [List.mem_singleton.mp he]
    rfl
  | cancel | claim | start | renew | succeed | cancellation => cases he

theorem Step.appends {w w' : World} {l : Label} (hs : Step w l w') :
    ∃ new, w'.db.outbox.rows = w.db.outbox.rows ++ new ∧ ∀ e ∈ new, e.status = .pending := by
  cases hs.effect with
  | unchanged same => exact ⟨[], by rw [same, List.append_nil], by simp⟩
  | sessions only kept workers owned => exact ⟨[], by rw [only.outbox, List.append_nil], by simp⟩
  | move id writes lawful applied => exact ⟨writes.events, applied.outbox, lawful.events_pending⟩

end Calls

/-! ## Nothing is published unsent -/

/-- What the publishers hold are events of the outbox, what one of them is about to mark
has been accepted, and so has been what is marked. -/
structure Vouched (s : Publishing) : Prop where
  held : ∀ i, ∀ e ∈ (s.publishers i).held,
    ∃ row ∈ s.events, row.id = e.id ∧ (scanEvent row).envelope = e.envelope
  sent : ∀ i st e rest, s.publishers i = .sent st e rest →
    ∃ body, e.body = some body ∧ body ∈ s.accepted
  published : ∀ e ∈ s.events, e.status = .published →
    ∃ body, (scanEvent e).body = some body ∧ body ∈ s.accepted

section Safety

variable {cfg : ℕ → PublisherConfig} {s t : Publishing} {l : PublishLabel}

theorem Publishing.Opening.vouched (h : s.Opening) : Vouched s where
  held i e he := by
    rw [h.idle i] at he
    cases he
  sent i st e rest hi := by
    rw [h.idle i] at hi
    cases hi
  published := h.published

/-- What a step is to the outbox: it appends pending events, or none, or it is a call, and
a mark only of the event that the broker has answered for. -/
theorem PublishStep.outbox (hstep : PublishStep cfg s l t) :
    (∃ new, t.events = s.events ++ new ∧ ∀ e ∈ new, e.status = .pending) ∨
    ∃ now call ans, OutboxCall.run now s.db call = .ok (ans, t.db) ∧
      ∀ id, call = .markPublished id → ∃ i st e rest, s.publishers i = .sent st e rest ∧ e.id = id := by
  have hsame : ∀ {t : Publishing}, t.events = s.events →
      ∃ new, t.events = s.events ++ new ∧ ∀ e ∈ new, e.status = .pending := fun h =>
    ⟨[], by rw [h, List.append_nil], by simp⟩
  cases hstep with
  | store step => exact .inl step.appends
  | claimed at_ run | claimLost at_ run =>
    exact .inr ⟨_, _, _, run_claimDue run, fun id hid => by cases hid⟩
  | recorded at_ run => exact .inr ⟨_, _, _, run_recordFailure run, fun id hid => by cases hid⟩
  | marked at_ run | markLost at_ run =>
    refine .inr ⟨_, _, _, run_markPublished run, fun id hid => ?_⟩
    cases hid
    exact ⟨_, _, _, _, at_, rfl⟩
  | unpublished taken => cases taken <;> exact .inl (hsame rfl)
  | tick | crash | claimFailed | canceled | unencoded | published | markFailed | unrecorded
  | finished => exact .inl (hsame rfl)

/-- No step takes an event away, or touches one that is published. -/
theorem PublishStep.kept (hstep : PublishStep cfg s l t) :
    ∀ e ∈ s.events, ∃ e' ∈ t.events, Delivered e e' := by
  intro e he
  rcases hstep.outbox with ⟨new, hrows, -⟩ | ⟨now, call, ans, hrun, -⟩
  · refine ⟨e, ?_, Delivered.refl e⟩
    rw [hrows]
    exact List.mem_append_left _ he
  · exact (OutboxCall.moved hrun).kept e he

/-- An event that is published was so before, or is in the hand of a publisher that has
the broker's answer. -/
theorem PublishStep.publishes (hstep : PublishStep cfg s l t) {e' : OutboxEvent}
    (he' : e' ∈ t.events) (hp : e'.status = .published) :
    (∃ e ∈ s.events, e.id = e'.id ∧ e.status = .published) ∨
      ∃ i st e rest, s.publishers i = .sent st e rest ∧ e.id = e'.id := by
  rcases hstep.outbox with ⟨new, hrows, hpending⟩ | ⟨now, call, ans, hrun, hmark⟩
  · rw [hrows] at he'
    rcases List.mem_append.mp he' with hold | hnew
    · exact .inl ⟨e', hold, rfl, hp⟩
    · rw [hpending e' hnew] at hp
      cases hp
  · exact (OutboxCall.published hrun he' hp).symm.imp_right (hmark _)

/-- What a publisher holds is still in the outbox after a step. -/
theorem PublishStep.row (hstep : PublishStep cfg s l t) {e : Event}
    (h : ∃ row ∈ s.events, row.id = e.id ∧ (scanEvent row).envelope = e.envelope) :
    ∃ row ∈ t.events, row.id = e.id ∧ (scanEvent row).envelope = e.envelope := by
  obtain ⟨row, hmem, hid, henv⟩ := h
  obtain ⟨row', hmem', hdelivered⟩ := hstep.kept row hmem
  exact ⟨row', hmem', hdelivered.id.trans hid, hdelivered.envelope.trans henv⟩

/-- An event that a step publishes has been accepted before. -/
theorem Vouched.before (h : Vouched s) (hstep : PublishStep cfg s l t) {e' : OutboxEvent}
    (he' : e' ∈ t.events) (hp : e'.status = .published) :
    ∃ body, (scanEvent e').body = some body ∧ body ∈ s.accepted := by
  rcases hstep.publishes he' hp with ⟨e, he, hid, hstatus⟩ | ⟨i, st, e, rest, hi, hid⟩
  · -- It was published before, so it is the row it was.
    obtain ⟨e₁, he₁, hdelivered⟩ := hstep.kept e he
    have hsame : e₁ = e' := t.db.event_eq_of_id he₁ he' (hdelivered.id.trans hid)
    rw [← hsame, hdelivered.published hstatus]
    exact h.published e he hstatus
  · -- A publisher marked it: what that one sent is the envelope of this row.
    obtain ⟨body, hbody, hmem⟩ := h.sent i st e rest hi
    have hin : e ∈ (s.publishers i).held := by
      rw [hi]
      exact List.mem_cons_self
    obtain ⟨row, hrow, hrowid, henv⟩ := hstep.row (h.held i e hin)
    have hsame : row = e' := t.db.event_eq_of_id hrow he' (hrowid.trans hid)
    refine ⟨body, ?_, hmem⟩
    rw [← hsame, Event.body, henv]
    exact hbody

/-- The books are kept if no acceptance is forgotten and the one publisher that moves
holds what it held, or what is in the outbox. -/
theorem Vouched.next (h : Vouched s) (hstep : PublishStep cfg s l t) {i : ℕ} {p : Publisher}
    (hpublishers : t.publishers = Function.update s.publishers i p)
    (haccepted : ∀ b ∈ s.accepted, b ∈ t.accepted)
    (hheld : ∀ e ∈ p.held, e ∈ (s.publishers i).held ∨
      ∃ row ∈ t.events, row.id = e.id ∧ (scanEvent row).envelope = e.envelope)
    (hsent : ∀ st e rest, p = .sent st e rest → ∃ body, e.body = some body ∧ body ∈ t.accepted) :
    Vouched t := by
  refine ⟨fun j e he => ?_, fun j st e rest hj => ?_, fun e' he' hp => ?_⟩
  · rw [hpublishers] at he
    by_cases hji : j = i
    · subst hji
      rw [Function.update_self] at he
      rcases hheld e he with hold | hnew
      · exact hstep.row (h.held j e hold)
      · exact hnew
    · rw [Function.update_of_ne hji] at he
      exact hstep.row (h.held j e he)
  · rw [hpublishers] at hj
    by_cases hji : j = i
    · subst hji
      rw [Function.update_self] at hj
      exact hsent st e rest hj
    · rw [Function.update_of_ne hji] at hj
      obtain ⟨body, hbody, hmem⟩ := h.sent j st e rest hj
      exact ⟨body, hbody, haccepted body hmem⟩
  · obtain ⟨body, hbody, hmem⟩ := h.before hstep he' hp
    exact ⟨body, hbody, haccepted body hmem⟩

theorem PublishStep.vouched (hstep : PublishStep cfg s l t) (h : Vouched s) : Vouched t := by
  have next := @Vouched.next cfg s t l h hstep
  cases hstep with
  | store step =>
    exact next (Function.update_eq_self 0 s.publishers).symm (fun b hb => hb)
      (fun e he => .inl he) fun st e rest hp => h.sent 0 st e rest hp
  | tick | crash | claimFailed | canceled | claimLost =>
    exact next rfl (fun b hb => hb) (fun e he => by cases he) (by rintro st e rest ⟨⟩)
  | claimed at_ run =>
    refine next rfl (fun b hb => hb) (fun e he => ?_) (by rintro st e rest ⟨⟩)
    obtain ⟨due, -, hevents, -⟩ := claimDue_batch run
    have hmem : e ∈ _ := hevents ▸ he
    obtain ⟨row, hrow, rfl⟩ := List.mem_map.mp hmem
    exact .inr ⟨row, (List.mem_filter.mp hrow).1, rfl, rfl⟩
  | unencoded at_ body =>
    refine next rfl (fun b hb => hb) (fun e he => .inl ?_) (by rintro st e rest ⟨⟩)
    rw [at_]
    exact he
  | @published i st e rest body at_ body_eq =>
    refine next rfl (fun b hb => List.mem_cons_of_mem _ hb) (fun e he => .inl ?_) ?_
    · rw [at_]
      exact he
    · rintro st' e' rest' ⟨⟩
      exact ⟨body, body_eq, List.mem_cons_self⟩
  | @unpublished i st e rest body cause taken at_ body_eq =>
    refine @next i (.refused st.fail e cause rest) ?_ (fun b hb => ?_) (fun x hx => .inl ?_)
      (by rintro st e rest ⟨⟩)
    · cases taken <;> rfl
    · cases taken with
      | false => exact hb
      | true => exact List.mem_cons_of_mem _ hb
    · rw [at_]
      exact hx
  | marked at_ | markLost at_ | markFailed at_ | recorded at_ | unrecorded at_ =>
    refine next rfl (fun b hb => hb) (fun x hx => .inl ?_) (by rintro st e rest ⟨⟩)
    rw [at_]
    exact List.mem_cons_of_mem _ hx
  | @finished i st at_ =>
    refine next rfl (fun b hb => hb) (fun x hx => ?_) ?_
    · split at hx <;> cases hx
    · intro st' e rest hp
      split at hp <;> cases hp

/-- Over a run, too, no event is lost and no published one is touched. -/
theorem kept_of_run {trace : List PublishLabel} (hrun : Runs.Run (PublishStep cfg) s trace t) :
    ∀ e ∈ s.events, ∃ e' ∈ t.events, Delivered e e' := by
  refine Runs.Run.related (P := fun _ => True)
    (R := fun s t => ∀ e ∈ s.events, ∃ e' ∈ t.events, Delivered e e')
    (fun s e he => ⟨e, he, Delivered.refl e⟩) ?_ (fun _ _ => trivial) (fun _ hstep => hstep.kept) hrun
    trivial
  intro s t u h₁ h₂ e he
  obtain ⟨e₁, he₁, hd₁⟩ := h₁ e he
  obtain ⟨e₂, he₂, hd₂⟩ := h₂ e₁ he₁
  refine ⟨e₂, he₂, hd₂.subject.trans hd₁.subject, fun hp => ?_⟩
  rw [hd₂.published (by rw [hd₁.published hp, hp]), hd₁.published hp]

end Safety

/-! ## A drain ends -/

/-- The events that are pending and not among these. -/
def pendingOutside (rest : List Event) (db : DB) : ℕ :=
  db.outbox.rows.countP fun e => decide (e.status = .pending ∧ e.id ∉ rest.map Event.id)

/-- The most turns of one pass. -/
def passTurns (batch : ℕ) : ℕ := 3 * batch + 3

/-- The turns a publisher has left in its drain: those of the batch in its hands, and,
where the drain may go on, a pass for each event that is pending elsewhere and one more. -/
def Publisher.drainBound (batch : ℕ) (db : DB) : Publisher → ℕ
  | .idle => 0
  | .scanning => passTurns batch * (pendingOutside [] db + 1)
  | .working st rest => 3 * rest.length + 1 +
      if st.goesOn batch then passTurns batch * (pendingOutside rest db + 1) else 0
  | .sent st e rest => 3 * rest.length + 3 +
      if st.goesOn batch then passTurns batch * (pendingOutside (e :: rest) db + 1) else 0
  | .refused st _ _ rest => 3 * rest.length + 2 +
      if st.goesOn batch then passTurns batch * (pendingOutside rest db + 1) else 0

section Progress

variable {cfg : ℕ → PublisherConfig} {s t : Publishing} {l : PublishLabel} {db db' : DB}

/-- Publishers only take events out of `PENDING`. -/
theorem EventsMoved.pendingOutside_le (h : EventsMoved db db') (rest : List Event) :
    pendingOutside rest db' ≤ pendingOutside rest db := by
  obtain ⟨f, hrows, hf⟩ := h.rows
  unfold pendingOutside
  rw [hrows, List.countP_map]
  refine List.countP_mono_left fun e he hp => ?_
  simp only [Function.comp_apply, decide_eq_true_eq, (hf e he).id] at hp ⊢
  exact ⟨(hf e he).pending hp.1, hp.2⟩

/-- After its mark an event is not pending, whoever marked it. -/
theorem markPublished_pendingOutside {now : Int} {e : Event} {changed : Bool}
    (h : markPublished now e.id db = .ok (changed, db')) (rest : List Event) :
    pendingOutside rest db' ≤ pendingOutside (e :: rest) db := by
  simp only [markPublished, bind_eq_ok, pure_eq_ok, Prod.mk.injEq] at h
  obtain ⟨outbox, hupd, -, rfl⟩ := h
  unfold pendingOutside
  rw [show ({ db with outbox := outbox } : DB).outbox.rows = _ from
    Table.update_rows (orRefused_eq_ok.mp hupd), List.countP_map]
  refine List.countP_mono_left fun r hr hp => ?_
  simp only [Function.comp_apply, decide_eq_true_eq] at hp ⊢
  by_cases hmine : isPendingEvent e.id r = true
  · -- The row the statement published.
    rw [if_pos hmine] at hp
    exact absurd hp.1 (by simp [publishedEvent])
  · rw [if_neg hmine] at hp
    refine ⟨hp.1, ?_⟩
    rw [List.map_cons, List.mem_cons, not_or]
    exact ⟨fun hid => hmine (isPendingEvent_eq_true.mpr ⟨hid, hp.1⟩), hp.2⟩

/-- Two ways of being selected that exclude each other. -/
theorem countP_add_countP_le {α : Type} {p q r : α → Bool} {xs : List α}
    (h : ∀ x ∈ xs, (p x = true → r x = true ∧ q x = false) ∧ (q x = true → r x = true)) :
    xs.countP p + xs.countP q ≤ xs.countP r := by
  induction xs with
  | nil => exact Nat.le_refl _
  | cons x xs ih =>
    have hrest := ih fun y hy => h y (List.mem_cons_of_mem x hy)
    obtain ⟨hp, hq⟩ := h x List.mem_cons_self
    simp only [List.countP_cons]
    cases hpx : p x with
    | true =>
      obtain ⟨hr, hqx⟩ := hp hpx
      simp only [hr, hqx, if_true, Bool.false_eq_true, if_false]
      omega
    | false =>
      cases hqx : q x with
      | true =>
        simp only [hq hqx, if_true, Bool.false_eq_true, if_false]
        omega
      | false =>
        simp only [Bool.false_eq_true, if_false]
        omega

/-- A claim puts its batch into the hands of the publisher. -/
theorem claimDue_pendingOutside {now : Int} {limit : ℕ} {timeout : Int} {locked : List UUID}
    {events : List Event} (h : claimDue now limit timeout locked db = .ok (events, db')) :
    pendingOutside events db' + events.length ≤ pendingOutside [] db ∧ events.length ≤ limit := by
  obtain ⟨due, hdue, rfl, hpending⟩ := claimDue_batch h
  have hlength := length_filter_ids_le db' due
  rw [List.length_map]
  refine ⟨?_, hlength.trans hdue⟩
  refine le_trans ?_ ((OutboxCall.moved (run_claimDue h)).pendingOutside_le [])
  -- Every pending row is in the batch or outside it, and the batch is pending.
  have hids : ∀ r ∈ db'.outbox.rows,
      (r.id ∈ ((db'.outbox.rows.filter fun r => due.contains r.id).map scanEvent).map Event.id ↔
        due.contains r.id = true) := by
    intro r hr
    constructor
    · intro hid
      simp only [List.mem_map, List.mem_filter] at hid
      obtain ⟨x, ⟨y, ⟨-, hy⟩, rfl⟩, hid⟩ := hid
      rw [← hid]
      exact hy
    · intro hin
      exact List.mem_map_of_mem (List.mem_map_of_mem (List.mem_filter.mpr ⟨hr, hin⟩))
  unfold pendingOutside
  rw [← List.countP_eq_length_filter]
  refine countP_add_countP_le fun r hr => ⟨fun hp => ?_, fun hin => ?_⟩
  · simp only [decide_eq_true_eq] at hp ⊢
    refine ⟨⟨hp.1, List.not_mem_nil⟩, ?_⟩
    rw [Bool.eq_false_iff]
    exact fun hin => hp.2 ((hids r hr).mpr hin)
  · simp only [decide_eq_true_eq]
    exact ⟨hpending r hr (List.contains_iff_mem.mp hin), List.not_mem_nil⟩

/-- With no new events there are no more pending ones. -/
theorem PublishStep.pendingOutside_le (hstep : PublishStep cfg s l t)
    (hquiet : t.events.length = s.events.length) (rest : List Event) :
    pendingOutside rest t.db ≤ pendingOutside rest s.db := by
  rcases hstep.outbox with ⟨new, hrows, -⟩ | ⟨now, call, ans, hrun, -⟩
  · have hnone : new = [] := by
      rw [hrows, List.length_append] at hquiet
      exact List.eq_nil_of_length_eq_zero (by omega)
    rw [hnone, List.append_nil] at hrows
    show t.events.countP _ ≤ s.events.countP _
    rw [hrows]
  · exact (OutboxCall.moved hrun).pendingOutside_le rest

/-- A step moves the publisher it is a step of, if any. -/
theorem PublishStep.others (hstep : PublishStep cfg s l t) {i : ℕ}
    (hl : l ≠ .tick i ∧ l ≠ .turn i ∧ l ≠ .crash i) : t.publishers i = s.publishers i := by
  have key : ∀ {j : ℕ} {p : Publisher} {u : Publishing}, j ≠ i → u.publishers = s.publishers →
      (u.move j p).publishers i = s.publishers i := by
    intro j p u hji hu
    rw [move_publishers, Function.update_of_ne (Ne.symm hji), hu]
  cases hstep with
  | store step => rfl
  | @tick j idle => exact key (fun h => hl.1 (h ▸ rfl)) rfl
  | @crash j => exact key (fun h => hl.2.2 (h ▸ rfl)) rfl
  | @unpublished j st e rest body cause taken at_ body_eq =>
    refine key (fun h => hl.2.1 (h ▸ rfl)) ?_
    cases taken <;> rfl
  | claimed | claimLost | claimFailed | canceled | unencoded | published | marked | markLost
  | markFailed | recorded | unrecorded | finished => exact key (fun h => hl.2.1 (h ▸ rfl)) rfl

theorem Publisher.drainBound_le {batch : ℕ}
    (h : ∀ rest, pendingOutside rest db' ≤ pendingOutside rest db) (p : Publisher) :
    p.drainBound batch db' ≤ p.drainBound batch db := by
  have hcost : ∀ rest, passTurns batch * (pendingOutside rest db' + 1) ≤
      passTurns batch * (pendingOutside rest db + 1) := fun rest =>
    Nat.mul_le_mul_left _ (Nat.add_le_add_right (h rest) 1)
  cases p with
  | idle => exact Nat.le_refl _
  | scanning => exact hcost []
  | working st rest | refused st e cause rest =>
    have hrest := hcost rest
    simp only [Publisher.drainBound]
    split_ifs <;> omega
  | sent st e rest =>
    have hrest := hcost (e :: rest)
    simp only [Publisher.drainBound]
    split_ifs <;> omega

@[simp] theorem Stats.goesOn_fail (st : Stats) (batch : ℕ) : st.fail.goesOn batch = false := by
  simp [Stats.fail, Stats.goesOn]

@[simp] theorem Stats.goesOn_mark (st : Stats) (changed : Bool) (batch : ℕ) :
    (st.mark changed).goesOn batch = st.goesOn batch := by
  cases changed <;> rfl

/-- Each turn of a publisher uses up one of those it has left. -/
theorem PublishStep.drainBound_lt {i : ℕ} (hstep : PublishStep cfg s (.turn i) t) :
    (t.publishers i).drainBound (cfg i).batch t.db <
      (s.publishers i).drainBound (cfg i).batch s.db := by
  cases hstep with
  | @claimed i now locked events db at_ run =>
    obtain ⟨hpending, hlimit⟩ := claimDue_pendingOutside run
    have hbatch := (cfg i).batch_pos
    rw [at_]
    simp only [move_publishers, Function.update_self, move_db, commit_db, Publisher.drainBound,
      Stats.goesOn, beq_self_eq_true, Bool.and_true, decide_eq_true_eq]
    -- A full batch goes on, and then it has taken at least one event from the others.
    have hcost : (cfg i).batch ≤ events.length →
        passTurns (cfg i).batch * (pendingOutside events db + 1) ≤
          passTurns (cfg i).batch * pendingOutside [] s.db := fun hfull =>
      Nat.mul_le_mul_left _ (by omega)
    rw [Nat.mul_add _ (pendingOutside [] s.db) 1, Nat.mul_one]
    have hturns : passTurns (cfg i).batch = 3 * (cfg i).batch + 3 := rfl
    split_ifs with hfull
    · have := hcost hfull
      omega
    · omega
  | claimLost at_ run | claimFailed at_ =>
    rw [at_]
    simp only [move_publishers, Function.update_self, Publisher.drainBound, passTurns]
    exact Nat.mul_pos (by omega) (by omega)
  | canceled at_ =>
    rw [at_]
    simp only [move_publishers, Function.update_self, Publisher.drainBound]
    omega
  | unencoded at_ body | unpublished taken at_ body_eq =>
    rw [at_]
    simp only [move_publishers, Function.update_self, Publisher.drainBound, Stats.goesOn_fail,
      Bool.false_eq_true, if_false, List.length_cons]
    omega
  | published at_ body_eq =>
    rw [at_]
    simp only [move_publishers, Function.update_self, move_db, accept_db, Publisher.drainBound,
      List.length_cons]
    omega
  | @marked i st e rest now changed db at_ run =>
    have hcost := Nat.mul_le_mul_left (passTurns (cfg i).batch)
      (Nat.add_le_add_right (markPublished_pendingOutside run rest) 1)
    rw [at_]
    simp only [move_publishers, Function.update_self, move_db, commit_db, Publisher.drainBound,
      Stats.goesOn_mark]
    split_ifs <;> omega
  | markLost at_ run | markFailed at_ =>
    rw [at_]
    simp only [move_publishers, Function.update_self, Publisher.drainBound, Stats.goesOn_fail,
      Bool.false_eq_true, if_false]
    omega
  | @recorded i st e cause rest now after u db at_ run =>
    have hcost := Nat.mul_le_mul_left (passTurns (cfg i).batch)
      (Nat.add_le_add_right ((OutboxCall.moved (run_recordFailure run)).pendingOutside_le rest) 1)
    rw [at_]
    simp only [move_publishers, Function.update_self, move_db, commit_db, Publisher.drainBound]
    split_ifs <;> omega
  | unrecorded at_ =>
    rw [at_]
    simp only [move_publishers, Function.update_self, move_db, Publisher.drainBound]
    omega
  | @finished i st at_ =>
    rw [at_]
    simp only [move_publishers, Function.update_self, move_db]
    by_cases hon : st.goesOn (cfg i).batch = true
    · simp only [hon, if_true, Publisher.drainBound]
      omega
    · simp only [hon, Publisher.drainBound]
      simp

/-- A step that inserts no event and does not start the drain of `i` anew. -/
def QuietStep (cfg : ℕ → PublisherConfig) (i : ℕ) (s : Publishing) (l : PublishLabel)
    (t : Publishing) : Prop :=
  PublishStep cfg s l t ∧ l ≠ .tick i ∧ t.events.length = s.events.length

theorem QuietStep.drainBound_le {i : ℕ} (h : QuietStep cfg i s l t) :
    (t.publishers i).drainBound (cfg i).batch t.db + (if l == .turn i then 1 else 0) ≤
      (s.publishers i).drainBound (cfg i).batch s.db := by
  obtain ⟨hstep, htick, hquiet⟩ := h
  by_cases hturn : l = .turn i
  · subst hturn
    rw [if_pos (beq_self_eq_true _)]
    exact hstep.drainBound_lt
  · rw [if_neg (by simpa using hturn), Nat.add_zero]
    by_cases hcrash : l = .crash i
    · subst hcrash
      cases hstep
      rw [move_publishers, Function.update_self]
      exact Nat.zero_le _
    · rw [hstep.others ⟨htick, hturn, hcrash⟩]
      exact Publisher.drainBound_le (hstep.pendingOutside_le hquiet) _

/-- A publisher that is draining can go on. -/
theorem exists_turn (cfg : ℕ → PublisherConfig) {i : ℕ} (h : s.publishers i ≠ .idle) :
    ∃ t, PublishStep cfg s (.turn i) t := by
  cases hp : s.publishers i with
  | idle => exact absurd hp h
  | scanning => exact ⟨_, .claimFailed hp⟩
  | working st rest => exact ⟨_, .canceled hp⟩
  | sent st e rest => exact ⟨_, .markFailed hp⟩
  | refused st e cause rest => exact ⟨_, .unrecorded hp⟩

end Progress

/-- In every run of any number of publishers, whatever fails and whoever crashes: an event
becomes `PUBLISHED` only when the broker has accepted its body; the row of a published
event stays as it is; every event stays, and while it is not published it is pending and
any scan past its instant with room for it claims it; and a drain in which no event is
inserted comes to its end. -/
theorem outbox_keeps_events {cfg : ℕ → PublisherConfig} {s₀ s s' : Publishing}
    {past trace : List PublishLabel} (hopen : s₀.Opening)
    (hpast : Runs.Run (PublishStep cfg) s₀ past s) (hrun : Runs.Run (PublishStep cfg) s trace s') :
    (∀ l t, PublishStep cfg s l t → ∀ e ∈ s.events, ∀ e' ∈ t.events, e'.id = e.id →
      e.status = .pending → e'.status = .published →
        ∃ body, (scanEvent e).body = some body ∧ body ∈ s.accepted) ∧
    (∀ e ∈ s.events, e.status = .published → e ∈ s'.events) ∧
    (∀ e ∈ s.events, ∃ e' ∈ s'.events, e'.id = e.id ∧
      (scanEvent e').body = (scanEvent e).body ∧
      (e'.status ≠ .published → e'.status = .pending ∧
        ∀ now limit timeout, e'.availableAt ≤ now → s'.events.length ≤ limit →
          ∃ events db', claimDue now limit timeout [] s'.db = .ok (events, db') ∧
            ∃ x ∈ events, x.id = e.id ∧ x.body = (scanEvent e).body)) ∧
    ∀ i, (∀ turns t, Runs.Run (QuietStep cfg i) s turns t →
        turns.countP (· == .turn i) ≤ (s.publishers i).drainBound (cfg i).batch s.db) ∧
      (s.publishers i ≠ .idle → ∃ t, PublishStep cfg s (.turn i) t) := by
  have hvouched : Vouched s := hpast.invariant (fun h hstep => hstep.vouched h) hopen.vouched
  have hkept := kept_of_run hrun
  refine ⟨?_, ?_, ?_, fun i => ⟨fun turns t hturns => ?_, exists_turn cfg⟩⟩
  · intro l t hstep e he e' he' hid hpending hpublished
    obtain ⟨body, hbody, hmem⟩ := hvouched.before hstep he' hpublished
    obtain ⟨e₁, he₁, hdelivered⟩ := hstep.kept e he
    have hsame : e₁ = e' := t.db.event_eq_of_id he₁ he' (hdelivered.id.trans hid.symm)
    refine ⟨body, ?_, hmem⟩
    rw [Event.body, ← hdelivered.envelope, hsame]
    exact hbody
  · intro e he hp
    obtain ⟨e', he', hdelivered⟩ := hkept e he
    rwa [← hdelivered.published hp]
  · intro e he
    obtain ⟨e', he', hdelivered⟩ := hkept e he
    have hbody : (scanEvent e').body = (scanEvent e).body := by
      rw [Event.body, hdelivered.envelope]
      rfl
    refine ⟨e', he', hdelivered.id, hbody, fun hnot => ?_⟩
    have hpending : e'.status = .pending := by
      cases hs : e'.status with
      | pending => rfl
      | published => exact absurd hs hnot
    refine ⟨hpending, fun now limit timeout hdue hroom => ?_⟩
    obtain ⟨events, db', hclaim, x, hx, hid, henv⟩ := claimDue_takes he' hpending hdue hroom timeout
    refine ⟨events, db', hclaim, x, hx, hid.trans hdelivered.id, ?_⟩
    rw [Event.body, henv]
    exact hbody
  · have hspent := hturns.spend (f := fun s => (s.publishers i).drainBound (cfg i).batch s.db)
      (c := fun l => l == .turn i) fun h => h.drainBound_le
    omega

/-- One job has been submitted, and no publisher has run yet. -/
def samplePublishing : Publishing :=
  ⟨(quiet.exec [⟨envAt 1 2 3, .submit "tenant" "key" (sampleNormal "\x7b\x7d") ⟨"", ""⟩⟩]).2,
    fun _ => .idle, []⟩

/-- The publisher that has claimed the event of the sample crashes: the event is there, and
is claimed again once its time has come. -/
theorem outbox_keeps_events_crash :
    ∃ s s', Runs.Run (PublishStep fun _ => ⟨0, 0⟩) samplePublishing [.tick 0, .turn 0] s ∧
      Runs.Run (PublishStep fun _ => ⟨0, 0⟩) s [.crash 0] s' ∧ s.events ≠ [] ∧
      ∀ e ∈ s.events, ∃ e' ∈ s'.events, e'.id = e.id ∧
        (e'.status ≠ .published → ∃ events db', claimDue e'.availableAt s'.events.length 0 [] s'.db =
          .ok (events, db') ∧ ∃ x ∈ events, x.id = e.id) := by
  obtain ⟨hpending, e, he, hp, havailable, hroom⟩ :
      (∀ e ∈ samplePublishing.events, e.status = .pending) ∧
      ∃ e ∈ samplePublishing.events, e.status = .pending ∧ e.availableAt ≤ 2 ∧
        samplePublishing.events.length ≤ 50 := by decide +kernel
  have hopen : samplePublishing.Opening := by
    refine ⟨fun _ => rfl, fun e he hp => ?_⟩
    rw [hpending e he] at hp
    cases hp
  obtain ⟨events, db, hclaim, -⟩ := claimDue_takes he hp havailable hroom 30000000
  have hpast : Runs.Run (PublishStep fun _ => ⟨0, 0⟩) samplePublishing [.tick 0, .turn 0] _ :=
    .cons (.tick rfl) (.cons (.claimed rfl hclaim) (.nil _))
  have hall := outbox_keeps_events hopen hpast (.cons (.crash (i := 0)) (.nil _))
  refine ⟨_, _, hpast, .cons .crash (.nil _), ?_, fun x hx => ?_⟩
  · intro hnone
    obtain ⟨e', he', -⟩ := (OutboxCall.moved (run_claimDue hclaim)).kept e he
    exact absurd (hnone ▸ he' : e' ∈ []) List.not_mem_nil
  · obtain ⟨e', he', hid, -, hagain⟩ := hall.2.2.1 x hx
    refine ⟨e', he', hid, fun hnot => ?_⟩
    obtain ⟨events', db', hclaim', y, hy, hyid, -⟩ := (hagain hnot).2 _ _ 0 (le_refl _) (le_refl _)
    exact ⟨events', db', hclaim', y, hy, hyid⟩

end TaskForge
