/-
The back-fill of notification metadata: migrations `0012` and `0013`.

Migration `0009` stamped every job of the time before it with generation 1, notified
when it was created. `0012` rebuilds both from the events that exist, for each job that
still carries that stamp. A job the current code wrote can carry it too: a replacement
is created and notified at one instant, read after its locks, while its event is dated
by the start of the transaction. `0012` moves such a job back to its event, and `0013`
finds it by the record of its replay and puts it where it was.

The two are taken together here. Each job's rows are repaired from that job's rows
alone, so it is enough to know what a job and its events look like: `Untouched` is what
`0009` left, `Steady` what the two migrations leave alone. What the store writes is
steady, whatever coincides (`Authored.steady`), and what the migrations write is
(`Untouched.steady`), so that they change nothing when they are run again.
-/
import TaskForge.Notifications
import TaskForge.Passes
import TaskForge.Permanence

open Relational Fallible

namespace TaskForge

/-! ## The two migrations -/

/-- The events that advertise a job. -/
def DB.notices (db : DB) (id : UUID) : List OutboxEvent :=
  db.outbox.rows.filter fun e => e.jobID == some id && e.eventType == eventWorkAvailable

/-- `row_number() OVER (PARTITION BY job_id ORDER BY created_at, id)` -/
def rowNumber (db : DB) (id : UUID) (e : OutboxEvent) : ℕ :=
  (orderBy scanOrder (fun e => (e.createdAt, e.id)) (db.notices id)).idxOf e + 1

/-- `max(created_at)` -/
def newest (events : List OutboxEvent) : Option Int := (events.map OutboxEvent.createdAt).max?

/-- The job still carries the stamp of `0009`, and has events to rebuild from. -/
def carriesStamp (db : DB) (j : Job) : Bool :=
  j.notificationGeneration == 1 && j.lastNotificationAt == some j.createdAt &&
    !(db.notices j.id).isEmpty

/-- `eligible_legacy_jobs` -/
def eligibleLegacyJobs (db : DB) : List UUID :=
  (db.jobs.rows.filter (carriesStamp db)).map Job.id

/-- `0012`, first statement: number the events of the eligible jobs. -/
def numberEvents (eligible : List UUID) (db : DB) : Except Violation (Table outboxEvents) :=
  db.outbox.update
    (fun e => e.eventType == eventWorkAvailable && e.jobID.any fun id =>
      eligible.contains id && e.notificationGeneration != some (rowNumber db id e))
    fun e => { e with notificationGeneration := e.jobID.map fun id => rowNumber db id e }

/-- `0012`, second statement: the generation of an eligible job is its newest event's. -/
def rebuildJobs (eligible : List UUID) (db : DB) : Except Violation (Table jobs) :=
  db.jobs.update
    (fun j => eligible.contains j.id &&
      (j.notificationGeneration != (db.notices j.id).length ||
        j.lastNotificationAt != newest (db.notices j.id)))
    fun j => { j with
      notificationGeneration := (db.notices j.id).length
      lastNotificationAt := newest (db.notices j.id) }

/-- `0012_per_job_notification_reconstruction` -/
def reconstruct (db : DB) : Except Violation DB := do
  let eligible := eligibleLegacyJobs db
  let outbox ← numberEvents eligible db
  let jobs ← rebuildJobs eligible { db with outbox := outbox }
  pure { db with outbox := outbox, jobs := jobs }

/-- The record of a replay that made this job. -/
def isReplacement (db : DB) (j : Job) : Bool :=
  db.dlqReplays.rows.any fun r => r.replacementJobID == j.id && r.scope == j.scope &&
    j.replayedFromJobID == some r.originalJobID

/-- The job is a replacement that `0012` moved back to its one event. -/
def isRewound (db : DB) (j : Job) : Bool :=
  isReplacement db j && j.notificationGeneration == 1 &&
    (j.lastNotificationAt.any fun last => decide (last < j.createdAt)) &&
    (db.notices j.id).length == 1 &&
    j.lastNotificationAt == (db.notices j.id).head?.map OutboxEvent.createdAt

/-- `0013_restore_replay_notification_timestamps` -/
def restore (db : DB) : Except Violation DB := do
  let jobs ← db.jobs.update (isRewound db) fun j => { j with lastNotificationAt := some j.createdAt }
  pure { db with jobs := jobs }

/-- The two, one after the other. -/
def backfill (db : DB) : Except Violation DB := do
  let db ← reconstruct db
  restore db

/-! ## What they make of a row -/

/-- The label `0012` gives an event. -/
def rightLabel (db : DB) (e : OutboxEvent) : Option ℕ :=
  match e.jobID with
  | some id =>
    if e.eventType = eventWorkAvailable ∧ id ∈ eligibleLegacyJobs db then some (rowNumber db id e)
    else e.notificationGeneration
  | none => e.notificationGeneration

/-- What `0012` makes of an event. -/
def relabel (db : DB) (e : OutboxEvent) : OutboxEvent :=
  { e with notificationGeneration := rightLabel db e }

/-- What `0012` makes of a job. -/
def rebuild (db : DB) (j : Job) : Job :=
  if carriesStamp db j then
    { j with
      notificationGeneration := (db.notices j.id).length
      lastNotificationAt := newest (db.notices j.id) }
  else j

/-- What `0013` makes of a job. -/
def restored (db : DB) (j : Job) : Job :=
  if isRewound db j then { j with lastNotificationAt := some j.createdAt } else j

section Rows

variable {db db' : DB} {j : Job} {e : OutboxEvent} {id : UUID}

theorem mem_notices :
    e ∈ db.notices id ↔
      e ∈ db.outbox.rows ∧ e.jobID = some id ∧ e.eventType = eventWorkAvailable := by
  simp only [DB.notices, List.mem_filter, Bool.and_eq_true, beq_iff_eq]

/-- Ids tell jobs apart, so eligibility may be asked of the row or of its id. -/
theorem mem_eligible (hj : j ∈ db.jobs.rows) :
    j.id ∈ eligibleLegacyJobs db ↔ carriesStamp db j = true := by
  rw [eligibleLegacyJobs, List.mem_map]
  constructor
  · rintro ⟨k, hk, hid⟩
    obtain ⟨hmem, hstamp⟩ := List.mem_filter.mp hk
    rw [← db.job_eq_of_id hmem hj hid]
    exact hstamp
  · exact fun hstamp => ⟨j, List.mem_filter.mpr ⟨hj, hstamp⟩, rfl⟩

theorem carriesStamp_eq_true :
    carriesStamp db j = true ↔ j.notificationGeneration = 1 ∧
      j.lastNotificationAt = some j.createdAt ∧ db.notices j.id ≠ [] := by
  simp only [carriesStamp, Bool.and_eq_true, beq_iff_eq, Bool.not_eq_true', List.isEmpty_eq_false_iff,
    and_assoc, ne_eq]

/-- An event of a job that is not eligible keeps its label. -/
theorem rightLabel_of_not_eligible (h : ∀ id, e.jobID = some id → id ∉ eligibleLegacyJobs db) :
    rightLabel db e = e.notificationGeneration := by
  unfold rightLabel
  split
  · next id hid => exact if_neg fun hboth => h id hid hboth.2
  · rfl

theorem rightLabel_of_eligible (he : e ∈ db.notices id) (hid : id ∈ eligibleLegacyJobs db) :
    rightLabel db e = some (rowNumber db id e) := by
  obtain ⟨-, hjob, htype⟩ := mem_notices.mp he
  unfold rightLabel
  rw [hjob]
  exact if_pos ⟨htype, hid⟩

theorem relabel_eq_self (h : rightLabel db e = e.notificationGeneration) : relabel db e = e := by
  rw [relabel, h]

theorem rebuild_kept (db : DB) (j : Job) :
    (rebuild db j).id = j.id ∧ (rebuild db j).scope = j.scope ∧
      (rebuild db j).createdAt = j.createdAt ∧
      (rebuild db j).replayedFromJobID = j.replayedFromJobID := by
  unfold rebuild
  split_ifs <;> exact ⟨rfl, rfl, rfl, rfl⟩

/-- The events of a database whose events were relabelled. -/
theorem notices_relabel (hrows : db'.outbox.rows = db.outbox.rows.map (relabel db)) (id : UUID) :
    db'.notices id = (db.notices id).map (relabel db) := by
  rw [DB.notices, hrows, List.filter_map, DB.notices]
  refine congrArg (List.map (relabel db)) (List.filter_congr fun e _ => ?_)
  rfl

theorem newest_relabel (db : DB) (events : List OutboxEvent) :
    newest (events.map (relabel db)) = newest events := by
  rw [newest, List.map_map, newest]
  rfl

theorem newest_isSome {events : List OutboxEvent} (h : events ≠ []) :
    (newest events).isSome = true := by
  rw [newest, List.isSome_max?_iff]
  simpa using h

/-- The check of an event asks of its label that it is there with a job, and positive. -/
theorem check_relabelled (he : e.check = true) {label : Option ℕ}
    (hjob : label.isSome = e.jobID.isSome) (hpos : ∀ g, label = some g → 1 ≤ g) :
    OutboxEvent.check { e with notificationGeneration := label } = true := by
  simp only [OutboxEvent.check, OutboxEvent.notificationMetadataPaired, Bool.and_eq_true,
    Option.all_eq_true, decide_eq_true_eq] at he ⊢
  obtain ⟨⟨⟨⟨hrest, hpublished⟩, -⟩, htraceparent⟩, htracestate⟩ := he
  refine ⟨⟨⟨⟨hrest, hpublished⟩, ?_, hpos⟩, htraceparent⟩, htracestate⟩
  rw [hjob]
  exact beq_self_eq_true _

/-- The check of a job asks of its notification that it is there. -/
theorem check_renotified (hj : j.check = true) {generation : ℕ} {last : Option Int}
    (h : last.isSome = decide (0 < generation)) :
    Job.check { j with notificationGeneration := generation, lastNotificationAt := last } = true := by
  have hchecked := Job.check_eq_true.mp hj
  refine Job.check_eq_true.mpr { hchecked with generation := ?_ }
  rw [Job.notificationGenerationConsistent, h]
  exact beq_self_eq_true _

/-- The numbering is accepted; a label that is right is not written. -/
theorem numberEvents_ok (db : DB) :
    ∃ outbox, numberEvents (eligibleLegacyJobs db) db = .ok outbox ∧
      outbox.rows = db.outbox.rows.map (relabel db) := by
  obtain ⟨outbox, hok⟩ := db.outbox.update_ok
    (p := fun e => e.eventType == eventWorkAvailable && e.jobID.any fun id =>
      (eligibleLegacyJobs db).contains id && e.notificationGeneration != some (rowNumber db id e))
    (f := fun e => { e with notificationGeneration := e.jobID.map fun id => rowNumber db id e })
    (fun e he _ => by
      refine check_relabelled (db.outbox.checked e he) (Option.isSome_map ..) fun g hg => ?_
      obtain ⟨id, -, rfl⟩ := Option.map_eq_some_iff.mp hg
      exact Nat.le_add_left 1 _) (fun _ _ => rfl)
  refine ⟨outbox, hok, ?_⟩
  rw [Table.update_rows hok]
  refine List.map_congr_left fun e _ => ?_
  split_ifs with hp
  · obtain ⟨htype, hany⟩ := Bool.and_eq_true_iff.mp hp
    obtain ⟨id, hid, hdiff⟩ := (Option.any_eq_true _ _).mp hany
    obtain ⟨hmem, -⟩ := Bool.and_eq_true_iff.mp hdiff
    have hlabel : rightLabel db e = e.jobID.map fun id => rowNumber db id e := by
      unfold rightLabel
      rw [hid]
      exact if_pos ⟨beq_iff_eq.mp htype, List.contains_iff_mem.mp hmem⟩
    rw [relabel, hlabel]
  · refine (relabel_eq_self ?_).symm
    unfold rightLabel
    split
    · next id hid =>
      refine ite_eq_right_iff.mpr fun hboth => ?_
      by_contra hne
      refine hp ?_
      simp [hid, hboth.1, hboth.2, Ne.symm hne]
    · rfl

/-- So is the rebuilding, on the events as they then are. -/
theorem rebuildJobs_ok {outbox : Table outboxEvents}
    (hevents : outbox.rows = db.outbox.rows.map (relabel db)) :
    ∃ jobs, rebuildJobs (eligibleLegacyJobs db) { db with outbox := outbox } = .ok jobs ∧
      jobs.rows = db.jobs.rows.map (rebuild db) := by
  have hnotices : ∀ id, DB.notices { db with outbox := outbox } id
      = (db.notices id).map (relabel db) := notices_relabel hevents
  have heligible : ∀ {j}, j ∈ db.jobs.rows →
      ((eligibleLegacyJobs db).contains j.id = true ↔ carriesStamp db j = true) :=
    fun hj => List.contains_iff_mem.trans (mem_eligible hj)
  unfold rebuildJobs
  simp only [hnotices, newest_relabel, List.length_map]
  obtain ⟨jobs, hok⟩ := db.jobs.update_ok
    (p := fun j => (eligibleLegacyJobs db).contains j.id &&
      (j.notificationGeneration != (db.notices j.id).length ||
        j.lastNotificationAt != newest (db.notices j.id)))
    (f := fun j => { j with
      notificationGeneration := (db.notices j.id).length
      lastNotificationAt := newest (db.notices j.id) })
    (fun j hj hp => by
      obtain ⟨-, -, hne⟩ :=
        carriesStamp_eq_true.mp ((heligible hj).mp (Bool.and_eq_true_iff.mp hp).1)
      refine check_renotified (db.jobs.checked j hj) ?_
      rw [newest_isSome hne, eq_comm, decide_eq_true_eq]
      exact List.length_pos_of_ne_nil hne) (fun _ _ => rfl)
  refine ⟨jobs, hok, ?_⟩
  rw [Table.update_rows hok]
  refine List.map_congr_left fun j hj => ?_
  unfold rebuild
  by_cases hstamp : carriesStamp db j = true
  · rw [if_pos hstamp, (heligible hj).mpr hstamp, Bool.true_and]
    split_ifs with hdiff
    · rfl
    · simp only [Bool.or_eq_true, bne_iff_ne, not_or, not_not] at hdiff
      rw [← hdiff.1, ← hdiff.2]
  · rw [if_neg hstamp, if_neg]
    exact fun h => hstamp ((heligible hj).mp (Bool.and_eq_true_iff.mp h).1)

/-- `0012` writes each row as its job's rows say. -/
theorem reconstruct_ok (db : DB) :
    ∃ db', reconstruct db = .ok db' ∧ db' = { db with outbox := db'.outbox, jobs := db'.jobs } ∧
      db'.outbox.rows = db.outbox.rows.map (relabel db) ∧
      db'.jobs.rows = db.jobs.rows.map (rebuild db) := by
  obtain ⟨outbox, houtbox, hevents⟩ := numberEvents_ok db
  obtain ⟨jobs, hjobs, hrows⟩ := rebuildJobs_ok hevents
  refine ⟨{ db with outbox := outbox, jobs := jobs }, ?_, rfl, hevents, hrows⟩
  rw [reconstruct, houtbox, ok_bind, hjobs]
  rfl

/-- `0013` restores the replacements that were moved back. -/
theorem restore_ok (db : DB) :
    ∃ db', restore db = .ok db' ∧ db' = { db with jobs := db'.jobs } ∧
      db'.jobs.rows = db.jobs.rows.map (restored db) := by
  obtain ⟨jobs, hok⟩ := db.jobs.update_ok (p := isRewound db)
    (f := fun j => { j with lastNotificationAt := some j.createdAt })
    (fun j hj hp => by
      simp only [isRewound, Bool.and_eq_true, beq_iff_eq] at hp
      obtain ⟨⟨⟨⟨-, hgen⟩, -⟩, -⟩, -⟩ := hp
      exact check_renotified (db.jobs.checked j hj) (by rw [hgen]; rfl)) (fun _ _ => rfl)
  refine ⟨{ db with jobs := jobs }, ?_, rfl, Table.update_rows hok⟩
  rw [restore, hok]
  rfl

end Rows

/-! ## What a job and its events look like -/

/-- History as `0009` stamped it. It is older than replays, and no record of one names
it. -/
structure Untouched (db : DB) (j : Job) : Prop where
  generation : j.notificationGeneration = 1
  stamp : j.lastNotificationAt = some j.createdAt
  original : isReplacement db j = false

/-- Rebuilding the job gives what it is, or moves it back to where `0013` finds it. -/
structure Steady (db : DB) (j : Job) : Prop where
  stamped : carriesStamp db j = true → ∃ e, db.notices j.id = [e] ∧
    e.notificationGeneration = some 1 ∧
    (e.createdAt = j.createdAt ∨ (e.createdAt < j.createdAt ∧ isReplacement db j = true))
  unstamped : carriesStamp db j = false → isRewound db j = false

section Repair

variable {db db' : DB} {j : Job} {e : OutboxEvent} {id : UUID}

/-- The one event of a job is its first. -/
theorem rowNumber_single (h : db.notices id = [e]) : rowNumber db id e = 1 := by
  rw [rowNumber, h, orderBy, List.mergeSort_singleton, List.idxOf_cons_self]

/-- `0013` sees the rows of its condition as `0012` found them. -/
theorem isRewound_reconstructed (hreplays : db'.dlqReplays = db.dlqReplays)
    (hevents : db'.outbox.rows = db.outbox.rows.map (relabel db)) (j : Job) :
    isRewound db' j = isRewound db j := by
  simp only [isRewound, isReplacement, hreplays, notices_relabel hevents, List.length_map,
    List.head?_map, Option.map_map]
  rfl

theorem isRewound_eq_true :
    isRewound db j = true ↔ isReplacement db j = true ∧ j.notificationGeneration = 1 ∧
      (∃ last, j.lastNotificationAt = some last ∧ last < j.createdAt) ∧
      ∃ e, db.notices j.id = [e] ∧ j.lastNotificationAt = some e.createdAt := by
  simp only [isRewound, Bool.and_eq_true, beq_iff_eq, Option.any_eq_true, decide_eq_true_eq,
    and_assoc]
  refine and_congr_right fun _ => and_congr_right fun _ => and_congr_right fun _ => ?_
  rw [List.length_eq_one_iff]
  constructor
  · rintro ⟨⟨e, he⟩, hlast⟩
    rw [he] at hlast
    exact ⟨e, he, hlast⟩
  · rintro ⟨e, he, hlast⟩
    rw [he]
    exact ⟨⟨e, rfl⟩, hlast⟩

theorem isReplacement_rebuild (db : DB) (j : Job) :
    isReplacement db (rebuild db j) = isReplacement db j := by
  obtain ⟨hid, hscope, -, hfrom⟩ := rebuild_kept db j
  simp only [isReplacement, hid, hscope, hfrom]

/-- **The two migrations together**, row by row. -/
theorem backfill_ok (db : DB) :
    ∃ db', backfill db = .ok db' ∧ db' = { db with outbox := db'.outbox, jobs := db'.jobs } ∧
      db'.outbox.rows = db.outbox.rows.map (relabel db) ∧
      db'.jobs.rows = db.jobs.rows.map fun j => restored db (rebuild db j) := by
  obtain ⟨db₁, hreconstruct, hdb₁, hevents, hjobs₁⟩ := reconstruct_ok db
  obtain ⟨db₂, hrestore, hdb₂, hjobs₂⟩ := restore_ok db₁
  have hreplays : db₁.dlqReplays = db.dlqReplays := by rw [hdb₁]
  refine ⟨db₂, ?_, ?_, ?_, ?_⟩
  · rw [backfill, hreconstruct]
    exact hrestore
  · rw [hdb₂, hdb₁]
  · rw [hdb₂]
    exact hevents
  · rw [hjobs₂, hjobs₁, List.map_map]
    refine List.map_congr_left fun j _ => ?_
    simp only [Function.comp_apply, restored, isRewound_reconstructed hreplays hevents]

/-- History is rebuilt, and `0013` leaves it. -/
theorem Untouched.repaired (h : Untouched db j) : restored db (rebuild db j) = rebuild db j := by
  refine if_neg fun hrewound => ?_
  have hreplacement := (isRewound_eq_true.mp hrewound).1
  rw [isReplacement_rebuild, h.original] at hreplacement
  cases hreplacement

/-- A steady job comes out as it went in. -/
theorem Steady.repaired (h : Steady db j) : restored db (rebuild db j) = j := by
  by_cases hstamp : carriesStamp db j = true
  · obtain ⟨hgen, hlast, -⟩ := carriesStamp_eq_true.mp hstamp
    obtain ⟨e, hone, -, hinstant⟩ := h.stamped hstamp
    have hrebuild : rebuild db j = { j with lastNotificationAt := some e.createdAt } := by
      rw [rebuild, if_pos hstamp, hone, hgen]
      rfl
    rw [hrebuild, restored]
    rcases hinstant with hsame | ⟨hbefore, hreplacement⟩
    · -- The rebuilt instant is the old one, and is no earlier than the job.
      rw [if_neg fun hrewound => ?_, hsame, ← hlast]
      obtain ⟨-, -, ⟨last, hsome, hlt⟩, -⟩ := isRewound_eq_true.mp hrewound
      cases hsome
      exact absurd hsame (Int.ne_of_lt hlt)
    · -- The job was moved back to its event, and is found there.
      rw [if_pos, ← hlast]
      exact isRewound_eq_true.mpr ⟨hreplacement, hgen, ⟨_, rfl, hbefore⟩, e, hone, rfl⟩
  · rw [Bool.not_eq_true] at hstamp
    have hrebuild : rebuild db j = j := by
      rw [rebuild, hstamp]
      rfl
    rw [hrebuild, restored, h.unstamped hstamp]
    rfl

/-- So do its events. -/
theorem Steady.relabelled (h : Steady db j) (hj : j ∈ db.jobs.rows) (he : e ∈ db.outbox.rows)
    (hjob : e.jobID = some j.id) : relabel db e = e := by
  refine relabel_eq_self ?_
  unfold rightLabel
  rw [hjob]
  refine ite_eq_right_iff.mpr fun hboth => ?_
  obtain ⟨e₀, hone, hlabel, -⟩ := h.stamped ((mem_eligible hj).mp hboth.2)
  have hmem : e ∈ db.notices j.id := mem_notices.mpr ⟨he, hjob, hboth.1⟩
  rw [hone, List.mem_singleton] at hmem
  rw [hmem, rowNumber_single hone, hlabel]

/-- Where every job is steady, nothing is written. -/
theorem backfill_of_steady (h : ∀ j ∈ db.jobs.rows, Steady db j) : backfill db = .ok db := by
  obtain ⟨db', hok, hdb', hevents, hjobs⟩ := backfill_ok db
  have hevents' : db'.outbox = db.outbox := by
    refine Table.ext (hevents.trans ?_)
    conv_rhs => rw [← List.map_id db.outbox.rows]
    refine List.map_congr_left fun e he => ?_
    by_cases helig : ∃ id, e.jobID = some id ∧ id ∈ eligibleLegacyJobs db
    · obtain ⟨id, hid, hmem⟩ := helig
      obtain ⟨j, hj, rfl⟩ := List.mem_map.mp hmem
      have hj' := (List.mem_filter.mp hj).1
      exact (h j hj').relabelled hj' he hid
    · exact relabel_eq_self (rightLabel_of_not_eligible fun id hid hmem => helig ⟨id, hid, hmem⟩)
  have hjobs' : db'.jobs = db.jobs := by
    refine Table.ext (hjobs.trans ?_)
    conv_rhs => rw [← List.map_id db.jobs.rows]
    exact List.map_congr_left fun j hj => (h j hj).repaired
  rw [hok, hdb', hevents', hjobs']

/-- A steady job is steady where its rows are the same. -/
theorem Steady.congr (h : Steady db j) (hnotices : db'.notices j.id = db.notices j.id)
    (hreplays : db'.dlqReplays = db.dlqReplays) : Steady db' j := by
  have hstamp : carriesStamp db' j = carriesStamp db j := by simp only [carriesStamp, hnotices]
  have hreplacement : isReplacement db' j = isReplacement db j := by
    simp only [isReplacement, hreplays]
  have hrewound : isRewound db' j = isRewound db j := by
    simp only [isRewound, hreplacement, hnotices]
  refine ⟨fun hs => ?_, fun hs => ?_⟩
  · rw [hnotices, hreplacement]
    exact h.stamped (hstamp ▸ hs)
  · rw [hrewound]
    exact h.unstamped (hstamp ▸ hs)

theorem Steady.notices (h : Steady db j) (hj : j ∈ db.jobs.rows)
    (hevents : db'.outbox.rows = db.outbox.rows.map (relabel db)) :
    db'.notices j.id = db.notices j.id := by
  rw [notices_relabel hevents]
  conv_rhs => rw [← List.map_id (db.notices j.id)]
  refine List.map_congr_left fun e he => ?_
  obtain ⟨hmem, hjob, -⟩ := mem_notices.mp he
  exact h.relabelled hj hmem hjob

/-- Rebuilt history is steady: it carries the stamp only where the stamp was right. -/
theorem Untouched.steady (h : Untouched db j) (hj : j ∈ db.jobs.rows)
    (hevents : db'.outbox.rows = db.outbox.rows.map (relabel db))
    (hreplays : db'.dlqReplays = db.dlqReplays) : Steady db' (rebuild db j) := by
  have hid := (rebuild_kept db j).1
  refine ⟨fun hstamp => ?_, fun _ => ?_⟩
  · obtain ⟨hgen, hlast, hne⟩ := carriesStamp_eq_true.mp hstamp
    rw [hid, notices_relabel hevents] at hne
    have hne' : db.notices j.id ≠ [] := fun hnil => hne (by rw [hnil]; rfl)
    have hstamp' : carriesStamp db j = true := carriesStamp_eq_true.mpr ⟨h.generation, h.stamp, hne'⟩
    rw [rebuild, if_pos hstamp'] at hgen hlast
    obtain ⟨e, hone⟩ := List.length_eq_one_iff.mp hgen
    have hcreated : e.createdAt = j.createdAt := by
      rw [hone] at hlast
      exact Option.some.inj hlast
    have hmem : e ∈ db.notices j.id := by
      rw [hone]
      exact List.mem_singleton_self e
    refine ⟨relabel db e, ?_, ?_, .inl ?_⟩
    · rw [hid, notices_relabel hevents, hone]
      rfl
    · rw [← rowNumber_single hone]
      exact rightLabel_of_eligible hmem ((mem_eligible hj).mpr hstamp')
    · rw [(rebuild_kept db j).2.2.1]
      exact hcreated
  · rw [Bool.eq_false_iff]
    intro hrewound
    have hreplacement := (isRewound_eq_true.mp hrewound).1
    have hsame : isReplacement db' (rebuild db j) = isReplacement db j := by
      rw [← isReplacement_rebuild db j]
      simp only [isReplacement, hreplays]
    rw [hsame, h.original] at hreplacement
    cases hreplacement

/-- A list without repetitions, each element replaced by its place. -/
theorem map_idxOf_succ {α : Type} [DecidableEq α] {l : List α} (h : l.Nodup) :
    l.map (fun a => l.idxOf a + 1) = List.range' 1 l.length := by
  refine List.ext_getElem (by simp) fun i hi _ => ?_
  rw [List.getElem_map, List.getElem_range', h.idxOf_getElem]
  omega

/-- The events of an eligible job are numbered in the order they were created in. -/
theorem labels_in_order (hj : j ∈ db.jobs.rows) (hstamp : carriesStamp db j = true)
    (hevents : db'.outbox.rows = db.outbox.rows.map (relabel db)) :
    (orderBy scanOrder (fun e => (e.createdAt, e.id)) (db'.notices j.id)).map
        OutboxEvent.notificationGeneration
      = (List.range' 1 (db.notices j.id).length).map some := by
  have hperm := orderBy_perm scanOrder (fun e : OutboxEvent => (e.createdAt, e.id)) (db.notices j.id)
  have hsorted : orderBy scanOrder (fun e => (e.createdAt, e.id)) (db'.notices j.id)
      = (orderBy scanOrder (fun e => (e.createdAt, e.id)) (db.notices j.id)).map (relabel db) := by
    rw [notices_relabel hevents]
    exact orderBy_map scanOrder (fun _ => rfl) _
  have hnodup : (orderBy scanOrder (fun e => (e.createdAt, e.id)) (db.notices j.id)).Nodup :=
    hperm.nodup_iff.mpr (db.outbox.nodup.filter _)
  rw [hsorted, List.map_map, ← hperm.length_eq, ← map_idxOf_succ hnodup, List.map_map]
  refine List.map_congr_left fun e he => ?_
  exact rightLabel_of_eligible (hperm.mem_iff.mp he) ((mem_eligible hj).mpr hstamp)

end Repair

/-! ## What the store writes -/

/-- How the store stamps a job, with the events it writes for it. -/
inductive Stamp (db : DB) (j : Job) : Prop where
  /-- Not queued yet. -/
  | delayed (generation : j.notificationGeneration = 0)
      (status : j.status = .pending ∨ j.status = .canceled)
      (events : (db.caseFile j.id).events = [])
  /-- Queued once, at the very instant the row is dated. -/
  | exact (e : OutboxEvent) (generation : j.notificationGeneration = 1)
      (stamp : j.lastNotificationAt = some j.createdAt)
      (events : (db.caseFile j.id).events = [e]) (eventType : e.eventType = eventWorkAvailable)
      (label : e.notificationGeneration = some 1)
      (instant : e.createdAt = j.createdAt ∨
        (e.createdAt < j.createdAt ∧ isReplacement db j = true))
  /-- Queued once, or advertised again, later than that. -/
  | later (last : Int) (generation : j.notificationGeneration = 1)
      (stamp : j.lastNotificationAt = some last) (after : j.createdAt < last)
  /-- Queued again. -/
  | advanced (generation : 2 ≤ j.notificationGeneration)

/-- What a stamp depends on, besides the status. -/
structure SameStamp (j j' : Job) : Prop where
  id : j'.id = j.id
  scope : j'.scope = j.scope
  replayed : j'.replayedFromJobID = j.replayedFromJobID
  created : j'.createdAt = j.createdAt
  generation : j'.notificationGeneration = j.notificationGeneration
  last : j'.lastNotificationAt = j.lastNotificationAt

section Stamps

variable {db db' : DB} {j j' : Job} {e : OutboxEvent} {env : Env} {id : UUID} {writes : Writes}
  {now : Int}

theorem notices_eq_filter (db : DB) (id : UUID) :
    db.notices id = (db.caseFile id).events.filter fun e => e.eventType == eventWorkAvailable := by
  simp only [DB.notices, DB.caseFile, List.filter_filter]
  refine List.filter_congr fun e _ => ?_
  rw [Bool.and_comm, Bool.beq_eq_decide_eq (a := e.jobID)]

/-- **The migrations leave alone whatever the store stamped.** -/
theorem Stamp.steady (h : Stamp db j) : Steady db j := by
  have hgeneration : j.notificationGeneration ≠ 1 → Steady db j := by
    intro hne
    refine ⟨fun hs => absurd (carriesStamp_eq_true.mp hs).1 hne, fun _ => ?_⟩
    exact Bool.eq_false_iff.mpr fun hr => hne (isRewound_eq_true.mp hr).2.1
  cases h with
  | delayed generation status events => exact hgeneration (by omega)
  | exact e generation stamp events eventType label instant =>
    have hone : db.notices j.id = [e] := by
      rw [notices_eq_filter, events]
      simp [eventType]
    refine ⟨fun _ => ⟨e, hone, label, instant⟩, fun hs => ?_⟩
    have hcarries := carriesStamp_eq_true.mpr ⟨generation, stamp, by rw [hone]; nofun⟩
    rw [hcarries] at hs
    cases hs
  | later last generation stamp after =>
    refine ⟨fun hs => ?_, fun _ => Bool.eq_false_iff.mpr fun hr => ?_⟩
    · have hlast := (carriesStamp_eq_true.mp hs).2.1
      rw [stamp, Option.some.injEq] at hlast
      omega
    · obtain ⟨-, -, ⟨last', hlast', hlt⟩, -⟩ := isRewound_eq_true.mp hr
      rw [stamp, Option.some.injEq] at hlast'
      omega
  | advanced generation => exact hgeneration (by omega)

theorem isReplacement_mono (hreplays : ∀ r ∈ db.dlqReplays.rows, r ∈ db'.dlqReplays.rows)
    (hid : j'.id = j.id) (hscope : j'.scope = j.scope)
    (hfrom : j'.replayedFromJobID = j.replayedFromJobID) (h : isReplacement db j = true) :
    isReplacement db' j' = true := by
  simp only [isReplacement, List.any_eq_true, hid, hscope, hfrom] at h ⊢
  obtain ⟨r, hr, hmatch⟩ := h
  exact ⟨r, hreplays r hr, hmatch⟩

/-- A stamp that is not written, with no event, is as it was. -/
theorem Stamp.same (h : Stamp db j) (hsame : SameStamp j j')
    (hevents : (db'.caseFile j.id).events = (db.caseFile j.id).events)
    (hreplays : ∀ r ∈ db.dlqReplays.rows, r ∈ db'.dlqReplays.rows)
    (hstatus : j.notificationGeneration = 0 → j'.status = .pending ∨ j'.status = .canceled) :
    Stamp db' j' := by
  rw [← hsame.id] at hevents
  cases h with
  | delayed generation status events =>
    exact .delayed (hsame.generation.trans generation) (hstatus generation)
      (hevents.trans (hsame.id ▸ events))
  | exact e generation stamp events eventType label instant =>
    refine .exact e (hsame.generation.trans generation) ?_ (hevents.trans (hsame.id ▸ events))
      eventType label ?_
    · rw [hsame.last, hsame.created]
      exact stamp
    · rw [hsame.created]
      exact instant.imp_right fun hb =>
        ⟨hb.1, isReplacement_mono hreplays hsame.id hsame.scope hsame.replayed hb.2⟩
  | later last generation stamp after =>
    exact .later last (hsame.generation.trans generation) (hsame.last.trans stamp)
      (hsame.created ▸ after)
  | advanced generation => exact .advanced (hsame.generation ▸ generation)

/-- The first entry to `QUEUED`, dated by a transaction that began after the job's. -/
theorem Stamp.first {sample : Int} (hgen : j.notificationGeneration = 1)
    (hlast : j.lastNotificationAt = some sample) (hevents : (db.caseFile j.id).events = [e])
    (htype : e.eventType = eventWorkAvailable) (hlabel : e.notificationGeneration = some 1)
    (hbegun : j.createdAt ≤ e.createdAt) (hlocked : e.createdAt ≤ sample) : Stamp db j := by
  by_cases hsample : sample = j.createdAt
  · exact .exact e hgen (hsample ▸ hlast) hevents htype hlabel (.inl (by omega))
  · exact .later sample hgen hlast (by omega)

/-- A job that has been queued has a generation. -/
theorem Stamp.generation_pos (h : Stamp db j) (hpending : j.status ≠ .pending)
    (hcanceled : j.status ≠ .canceled) : 1 ≤ j.notificationGeneration := by
  cases h with
  | delayed generation status events => exact absurd status (not_or.mpr ⟨hpending, hcanceled⟩)
  | exact e generation | later last generation | advanced generation => omega

/-- Advertised again, a job's stamp is later than its row. -/
theorem Stamp.again (h : Stamp db j) {last sample : Int} (hgen : 1 ≤ j.notificationGeneration)
    (hlast : j.lastNotificationAt = some last) (hlater : last < sample)
    (hgen' : j'.notificationGeneration = j.notificationGeneration)
    (hlast' : j'.lastNotificationAt = some sample) (hcreated : j'.createdAt = j.createdAt) :
    Stamp db' j' := by
  cases h with
  | delayed generation => omega
  | exact e generation stamp | later last₀ generation stamp after =>
    rw [stamp, Option.some.injEq] at hlast
    exact .later sample (hgen'.trans generation) hlast' (by omega)
  | advanced generation => exact .advanced (hgen' ▸ generation)

/-- What a move of an executing job makes of its stamp: nothing, or it is queued again. -/
theorem Stamp.executed (h : Stamp db j) (hn : Notice env db id writes)
    (hw : writes.job = .replace j j') (hkept : SameStamp j { j' with
      notificationGeneration := j.notificationGeneration
      lastNotificationAt := j.lastNotificationAt })
    (hbusy : j.status ≠ .pending ∧ j.status ≠ .canceled ∧ j.status ≠ .queued)
    (hevents : (db'.caseFile j.id).events = (db.caseFile j.id).events ++ writes.events)
    (hreplays : ∀ r ∈ db.dlqReplays.rows, r ∈ db'.dlqReplays.rows) : Stamp db' j' := by
  have hgen := h.generation_pos hbusy.1 hbusy.2.1
  cases hn with
  | kept job => rw [job] at hw; cases hw
  | delayed j₀ unborn write => rw [write] at hw; cases hw
  | born j₀ e unborn write => rw [write] at hw; cases hw
  | moved j₀ j₁ job write events status queue generation stamp =>
    rw [write] at hw
    cases hw
    rw [events, List.append_nil] at hevents
    exact h.same ⟨hkept.id, hkept.scope, hkept.replayed, hkept.created, generation, stamp⟩ hevents
      hreplays (by omega)
  | entered j₀ j₁ e job write events before status queue generation stamp =>
    rw [write] at hw
    cases hw
    exact .advanced (by omega)
  | repeated j₀ j₁ e job write events before =>
    rw [write] at hw
    cases hw
    exact absurd before hbusy.2.2

/-- **What each call makes of the stamp of its job.** A promotion begins after the job
was created, and an interval of re-notification is positive. -/
theorem Performs.stamp {call : Call} (hp : Performs env db call id writes)
    (happ : writes.Applied db db') (hgood : Good now (db.caseFile id))
    (hpromote : ∀ j ∈ db.jobs.rows, call = .promoteDueJob j.id → j.createdAt ≤ env.clock.start)
    (hrenotify : ∀ jobID after, call = .renotifyStrandedJob jobID after → 0 < after)
    (hunborn : (db.caseFile id).job = none → (db.caseFile id).events = [])
    (hstamp : ∀ j, (db.caseFile id).job = some j → Stamp db j) :
    ∃ j', (db'.caseFile id).job = some j' ∧ Stamp db' j' := by
  have hlawful := hp.lawful fun _ hw => unborn_of_insert happ hw
  have hfile := caseFile_applied happ hlawful.about
  have hnotice := hlawful.notice hgood
  have hreplays : ∀ r ∈ db.dlqReplays.rows, r ∈ db'.dlqReplays.rows := by
    intro r hr
    rw [happ.dlqReplays]
    exact List.mem_append_left _ hr
  have hevents : (db'.caseFile id).events = (db.caseFile id).events ++ writes.events := by
    rw [hfile, CaseFile.write_events]
  have hinsert : ∀ {j}, writes.job = .insert j → (db'.caseFile id).job = some j := by
    intro j hw
    rw [hfile, CaseFile.write_job_insert _ hw]
  have hreplace : ∀ {j j'}, writes.job = .replace j j' → (db'.caseFile id).job = some j' := by
    intro j j' hw
    rw [hfile, CaseFile.write_job_replace _ hw]
  have hbusy : ∀ {j j'}, writes.job = .replace j j' → (db.caseFile id).job = some j →
      j.status ≠ .pending ∧ j.status ≠ .canceled ∧ j.status ≠ .queued →
      ∃ j', (db'.caseFile id).job = some j' ∧ Stamp db' j' := by
    intro j j' hw hj hstatus
    obtain ⟨-, hid, hscope, -⟩ := hp.rewritten hw
    obtain ⟨-, hcreated, hfrom⟩ := hlawful.birth_kept hw
    have hjid := (caseFile_job_eq_some.mp hj).2
    refine ⟨j', hreplace hw, (hstamp j hj).executed hnotice hw ⟨hid, hscope, hfrom, hcreated, rfl, rfl⟩
      hstatus ?_ hreplays⟩
    rw [hjid]
    exact hevents
  cases hp with
  | submit scope key req trace queue =>
    refine ⟨_, hinsert rfl, ?_⟩
    have hnone := hunborn (unborn_of_insert happ rfl)
    rw [hnone, List.nil_append] at hevents
    by_cases hd : isDelayed env.clock.s₀ req = true
    · refine .delayed (by simp [submittedJob, hd]) (.inl (by simp [submittedJob, hd])) ?_
      rw [show (submittedJob env scope req).id = env.id₁ from rfl, hevents]
      simp [submitWrites, submittedJob, hd]
    · have hone : (submitWrites env scope key req trace).events
          = [workAvailableEvent env.id₂ env.clock.start env.id₁ req.queue 1 (some trace)] := if_neg hd
      have hlast : (submittedJob env scope req).lastNotificationAt = some env.clock.s₀ := if_neg hd
      exact .first (if_neg hd) hlast (hevents.trans hone) rfl rfl le_rfl env.clock.start_le
  | replay scope originalJobID key original ready =>
    refine ⟨_, hinsert rfl, ?_⟩
    have hnone := hunborn (unborn_of_insert happ rfl)
    rw [hnone, List.nil_append] at hevents
    refine .exact _ rfl rfl hevents rfl rfl ?_
    -- The record of the replay is written with the job.
    rcases Int.lt_or_eq_of_le env.clock.start_le with hlt | heq
    · refine .inr ⟨hlt, ?_⟩
      rw [isReplacement, happ.dlqReplays, List.any_append, Bool.or_eq_true]
      exact .inr (by simp [replayWrites, replacementJob])
    · exact .inl heq
  | cancel scope j target mem scope_eq cancelable =>
    refine ⟨_, hreplace rfl, ?_⟩
    rw [show (cancelWrites target env.clock.s₀ j).events = [] from rfl, List.append_nil] at hevents
    have hj := hstamp j (caseFile_job_of_mem mem)
    refine hj.same ⟨rfl, rfl, rfl, rfl, rfl, rfl⟩ hevents hreplays fun hgen => .inr ?_
    -- A job that was never queued is pending, and its cancellation ends it.
    cases hj with
    | delayed generation status events =>
      rcases status with hs | hs <;> rw [hs] at cancelable <;> cases cancelable
      rfl
    | exact e generation | later last generation | advanced generation => omega
  | promote j mem promotable =>
    refine ⟨_, hreplace rfl, ?_⟩
    have hj := hstamp j (caseFile_job_of_mem mem)
    by_cases hgen : j.notificationGeneration = 0
    · cases hj with
      | delayed generation status events =>
        rw [events, List.nil_append] at hevents
        refine .first ?_ rfl hevents rfl ?_ (hpromote j mem rfl) env.clock.start_le
        · simp [promotedJob, hgen]
        · simp [workAvailableEvent, hgen]
      | exact e generation | later last generation | advanced generation => omega
    · refine .advanced ?_
      rw [promotedJob]
      simp only
      omega
  | renotify j after mem stranded =>
    refine ⟨_, hreplace rfl, ?_⟩
    simp only [isStranded, Bool.and_eq_true, Option.any_eq_true, decide_eq_true_eq] at stranded
    obtain ⟨⟨⟨-, hgen⟩, last, hlast, hold⟩, -⟩ := stranded
    have hafter := hrenotify _ _ rfl
    refine (hstamp j (caseFile_job_of_mem mem)).again hgen hlast ?_ rfl rfl rfl
    unfold goTime at hold
    omega
  | claim scope req s j ready =>
    refine ⟨_, hreplace rfl, ?_⟩
    rw [show (claimWrites env scope req (nextAttemptNumber db j.id) j).events = [] from rfl,
      List.append_nil] at hevents
    have hj := hstamp j (caseFile_job_of_mem ready.job_mem)
    obtain ⟨⟨-, -, hqueued, -⟩, -⟩ := isEligible_eq_true.mp ready.eligible
    have hgen := hj.generation_pos (by rw [hqueued]; decide) (by rw [hqueued]; decide)
    exact hj.same ⟨rfl, rfl, rfl, rfl, rfl, rfl⟩ hevents hreplays (by omega)
  | renew scope req s j a l binding ready =>
    have hj := binding.holds.job
    refine ⟨j, ?_, ?_⟩
    · rw [hfile, CaseFile.write_job_keep _ rfl]
      exact hj
    · rw [show (renewWrites env env.clock.s₀ req.renewalRequestID l).events = [] from rfl,
        List.append_nil] at hevents
      have hs := hstamp j hj
      refine hs.same ⟨rfl, rfl, rfl, rfl, rfl, rfl⟩ hevents hreplays fun hgen => ?_
      cases hs with
      | delayed generation status events => exact status
      | exact e generation | later last generation | advanced generation => omega
  | start scope fence s j a l binding live job attempt =>
    exact hbusy rfl binding.holds.job (by rw [job]; decide)
  | succeed scope fence result s j a l binding ready
  | fail scope report s j a l d binding ready | acknowledge scope ack s j a l binding ready =>
    exact hbusy rfl binding.holds.job (by rw [ready.job]; decide)
  | timeOut stats s j a l d binding due decision =>
    exact hbusy rfl binding.holds.job (by rw [due.job]; decide)
  | expire stats s j a l w binding lapsed verdict =>
    have hexecuting : isExecutingJobStatus j.status = true →
        j.status ≠ .pending ∧ j.status ≠ .canceled ∧ j.status ≠ .queued := by
      intro hs
      cases hj : j.status <;> rw [hj] at hs <;> first | decide | cases hs
    cases verdict with
    | canceled job => exact hbusy rfl binding.holds.job (by rw [job]; decide)
    | timedOut d job | abandoned d job => exact hbusy rfl binding.holds.job (hexecuting job)

end Stamps

/-! ## Runs -/

/-- What a transition's clock and arguments are like. `PromoteDueJobs` begins the
transaction of a candidate after the scan that saw its row, so after the row's own began;
`RenotifyStrandedQueued` refuses an interval that is not positive. -/
def Transition.Timely (t : Transition) : Prop :=
  ∀ l, t.action = .store l →
    (∀ j ∈ t.before.db.jobs.rows, l.request.call = .promoteDueJob j.id →
      j.createdAt ≤ l.request.env.clock.start) ∧
    ∀ jobID after, l.request.call = .renotifyStrandedJob jobID after → 0 < after

/-- The job `id`, from before it is created. -/
structure Tracked (w : World) (id : UUID) : Prop where
  good : Good w.clock (w.db.caseFile id)
  unborn : (w.db.caseFile id).job = none → (w.db.caseFile id).events = []
  stamp : ∀ j, (w.db.caseFile id).job = some j → Stamp w.db j

/-- The job is one the current store created: it is as a run left it that began with
nothing on file about it. The run may start from any database, history and all, and
may end with any rows of other jobs. -/
def Authored (db : DB) (j : Job) : Prop :=
  ∃ w₀ trace w, w₀.db.caseFile j.id = ⟨none, [], [], [], [], []⟩ ∧ Service w₀ trace w ∧
    (∀ t ∈ trace, t.Timely) ∧ j ∈ w.db.jobs.rows ∧
    (db.caseFile j.id).events = (w.db.caseFile j.id).events ∧
    ∀ r ∈ w.db.dlqReplays.rows, r.replacementJobID = j.id → r ∈ db.dlqReplays.rows

section Runs

variable {w w' : World} {t : Transition} {id : UUID} {db db' : DB}
  {j : Job}

/-- A transition that leaves a case file alone leaves its job tracked. -/
theorem Tracked.still (h : Tracked w id) (hfile : w'.db.caseFile id = w.db.caseFile id)
    (hreplays : ∀ r ∈ w.db.dlqReplays.rows, r ∈ w'.db.dlqReplays.rows)
    (hclock : w.clock ≤ w'.clock) : Tracked w' id := by
  refine ⟨hfile ▸ h.good.mono hclock, hfile ▸ h.unborn, fun j hj => ?_⟩
  rw [hfile] at hj
  have hstamp := h.stamp j hj
  have hid := (caseFile_job_eq_some.mp hj).2
  refine hstamp.same ⟨rfl, rfl, rfl, rfl, rfl, rfl⟩ (by rw [hid, hfile]) hreplays fun hgen => ?_
  cases hstamp with
  | delayed generation status events => exact status
  | exact e generation | later last generation | advanced generation => omega

/-- A publisher does not touch what a stamp depends on. -/
theorem Tracked.delivered (h : Tracked w id) (hmoved : EventsMoved w.db w'.db)
    (hclock : w'.clock = w.clock) : Tracked w' id := by
  obtain ⟨f, hfile, hdelivered⟩ := hmoved.caseFile id
  have hreplays : w'.db.dlqReplays = w.db.dlqReplays := by rw [hmoved.only]
  refine ⟨?_, fun hj => ?_, fun j hj => ?_⟩
  · rw [hfile, hclock]
    exact h.good.events _
  · rw [hfile] at hj ⊢
    simp only [h.unborn hj, List.map_nil]
  · rw [hfile] at hj
    have hid := (caseFile_job_eq_some.mp hj).2
    have hevents : (w'.db.caseFile j.id).events = (w.db.caseFile j.id).events.map f := by
      rw [hid, hfile]
    cases h.stamp j hj with
    | delayed generation status events => exact .delayed generation status (by rw [hevents, events]; rfl)
    | exact e generation stamp events eventType label instant =>
      have hmem : e ∈ (w.db.caseFile id).events := by
        rw [← hid, events]
        exact List.mem_singleton_self e
      have hd := hdelivered e hmem
      have hcreated : (f e).createdAt = e.createdAt := congrArg (·.2.2.2.2.1) hd.subject
      refine .exact (f e) generation stamp (by rw [hevents, events]; rfl)
        (hd.eventType.trans eventType) (hd.generation.trans label) ?_
      rw [hcreated, isReplacement, hreplays]
      exact instant
    | later last generation stamp after => exact .later last generation stamp after
    | advanced generation => exact .advanced generation

theorem Commit.tracked {env : Env} {call : Call} (hc : Commit env w.db w'.db call)
    (hsample : w.clock ≤ env.clock.s₀) (hend : env.clock.s₂ = w'.clock)
    (hpromote : ∀ j ∈ w.db.jobs.rows, call = .promoteDueJob j.id → j.createdAt ≤ env.clock.start)
    (hrenotify : ∀ jobID after, call = .renotifyStrandedJob jobID after → 0 < after)
    (h : Tracked w id) : Tracked w' id := by
  have hclock : w.clock ≤ w'.clock := hend ▸ hsample.trans env.clock.s₀_le_s₂
  cases hc with
  | unchanged call same => exact h.still (by rw [same]) (by rw [same]; exact fun r hr => hr) hclock
  | registered scope registration reg wid valid only workers sessions =>
    exact h.still (only.caseFile id) (by rw [only.dlqReplays]; exact fun r hr => hr) hclock
  | beat scope req s session scope_eq healthy moved | staled s staleAfter stale moved =>
    exact h.still (moved.only.caseFile id) (by rw [moved.only.dlqReplays]; exact fun r hr => hr)
      hclock
  | wrote call id' writes performs applied =>
    have hlawful := performs.lawful fun _ hw => unborn_of_insert applied hw
    by_cases hid : id = id'
    · subst hid
      obtain ⟨j', hj', hstamp⟩ :=
        performs.stamp applied h.good hpromote hrenotify h.unborn h.stamp
      refine ⟨?_, fun hnone => ?_, fun j hj => ?_⟩
      · rw [← hend]
        exact hlawful.good applied h.good hsample
      · rw [hj'] at hnone
        cases hnone
      · rw [hj'] at hj
        cases hj
        exact hstamp
    · refine h.still (caseFile_applied_of_ne applied hlawful.about hid) (fun r hr => ?_) hclock
      rw [applied.dlqReplays]
      exact List.mem_append_left _ hr

theorem ServiceStep.tracked (hs : ServiceStep w t w') (ht : t.Timely) (h : Tracked w id) :
    Tracked w' id := by
  obtain ⟨hbefore, -, ⟨l, haction, hstep⟩ | ⟨hmoved, hclock⟩⟩ := hs.cases
  · obtain ⟨hpromote, hrenotify⟩ := ht l haction
    have hend : l.request.env.clock.s₂ = w'.clock := by cases hstep <;> rfl
    rw [hbefore] at hpromote
    exact hstep.commit.tracked hstep.clock_le_sample hend hpromote hrenotify h
  · exact h.delivered hmoved hclock

/-- **Whatever the store created is left alone.** -/
theorem Authored.steady (h : Authored db j) : Steady db j := by
  obtain ⟨w₀, trace, w, hempty, hrun, htimely, hj, hevents, hreplays⟩ := h
  have hstart : Tracked w₀ j.id := by
    refine ⟨?_, fun _ => ?_, fun k hk => ?_⟩
    · rw [hempty]
      exact ⟨rfl, rfl, rfl, rfl⟩
    · rw [hempty]
    · rw [hempty] at hk
      cases hk
  have htracked : Tracked w j.id :=
    (hrun.restrict htimely).invariant (P := fun w => Tracked w j.id)
      (fun h hs => hs.1.tracked hs.2 h) hstart
  have hstamp := htracked.stamp j (caseFile_job_of_mem hj)
  -- The stamp is read off the job's own rows, which are the same in `db`.
  suffices hstamp' : Stamp db j from hstamp'.steady
  cases hstamp with
  | delayed generation status events => exact .delayed generation status (hevents.trans events)
  | exact e generation stamp events eventType label instant =>
    refine .exact e generation stamp (hevents.trans events) eventType label
      (instant.imp_right fun hb => ⟨hb.1, ?_⟩)
    simp only [isReplacement, List.any_eq_true] at hb ⊢
    obtain ⟨r, hr, hmatch⟩ := hb.2
    have hid : r.replacementJobID = j.id := by
      simp only [Bool.and_eq_true, beq_iff_eq] at hmatch
      exact hmatch.1.1
    exact ⟨r, hreplays r hr hid, hmatch⟩
  | later last generation stamp after => exact .later last generation stamp after
  | advanced generation => exact .advanced generation

/-- **The back-fill preserves meaning.** History with events is rebuilt from them, what
the current store created is left as it is, and a second run changes nothing. -/
theorem backfill_preserves (h : ∀ j ∈ db.jobs.rows, Untouched db j ∨ Authored db j) :
    ∃ db', backfill db = .ok db' ∧
      (∀ j ∈ db.jobs.rows, Untouched db j → db.notices j.id ≠ [] →
        ∃ j' ∈ db'.jobs.rows, j' = { j with
            notificationGeneration := (db.notices j.id).length
            lastNotificationAt := newest (db.notices j.id) } ∧
          (db'.notices j.id).map (fun e => (e.id, e.createdAt))
            = (db.notices j.id).map (fun e => (e.id, e.createdAt)) ∧
          (orderBy scanOrder (fun e => (e.createdAt, e.id)) (db'.notices j.id)).map
              OutboxEvent.notificationGeneration
            = (List.range' 1 (db.notices j.id).length).map some) ∧
      (∀ j ∈ db.jobs.rows, Authored db j →
        j ∈ db'.jobs.rows ∧ (db'.caseFile j.id).events = (db.caseFile j.id).events) ∧
      backfill db' = .ok db' := by
  obtain ⟨db', hok, hdb', hevents, hjobs⟩ := backfill_ok db
  have hreplays : db'.dlqReplays = db.dlqReplays := by rw [hdb']
  refine ⟨db', hok, fun j hj huntouched hne => ?_, fun j hj hauthored => ?_, ?_⟩
  · have hstamp : carriesStamp db j = true :=
      carriesStamp_eq_true.mpr ⟨huntouched.generation, huntouched.stamp, hne⟩
    refine ⟨rebuild db j, ?_, if_pos hstamp, ?_, labels_in_order hj hstamp hevents⟩
    · rw [hjobs, ← huntouched.repaired]
      exact List.mem_map_of_mem hj
    · rw [notices_relabel hevents, List.map_map]
      rfl
  · have hsteady := hauthored.steady
    refine ⟨?_, ?_⟩
    · rw [hjobs]
      exact List.mem_map.mpr ⟨j, hj, hsteady.repaired⟩
    · simp only [DB.caseFile]
      rw [hevents, List.filter_map]
      conv_rhs => rw [← List.map_id (db.outbox.rows.filter _)]
      refine List.map_congr_left fun e he => ?_
      obtain ⟨hmem, hjob⟩ := List.mem_filter.mp he
      exact hsteady.relabelled hj hmem (of_decide_eq_true hjob)
  · -- Every job of the new database is steady: rebuilt history, or as it was.
    refine backfill_of_steady fun j' hj' => ?_
    rw [hjobs, List.mem_map] at hj'
    obtain ⟨j, hj, rfl⟩ := hj'
    rcases h j hj with huntouched | hauthored
    · rw [huntouched.repaired]
      exact huntouched.steady hj hevents hreplays
    · have hsteady := hauthored.steady
      rw [hsteady.repaired]
      exact hsteady.congr (hsteady.notices hj hevents) hreplays

end Runs

/-- A job of the time before `0009` that was queued twice, stamped as `0009` stamps it. -/
def historyJob : Job where
  id := 50
  scope := "tenant"
  queue := "default"
  jobType := "email"
  payload := "\x7b\x7d"
  status := .queued
  priority := 5
  maxAttempts := 3
  timeoutSeconds := 60
  requiredCapabilities := []
  scheduledAt := none
  availableAt := 0
  cancelRequestedAt := none
  replayedFromJobID := none
  notificationGeneration := 1
  lastNotificationAt := some 0
  createdAt := 0
  updatedAt := 7

def historyDB : DB :=
  { quietDB with
    jobs := ⟨[historyJob], by decide, by decide⟩
    outbox := ⟨[workAvailableEvent 60 0 50 "default" 1 none,
      workAvailableEvent 61 7 50 "default" 1 none], by decide +kernel, by decide⟩ }

/-- A submission on it whose sample falls on the start of its transaction. -/
def historySubmit : Request :=
  ⟨envAt 9 2 3, .submit "tenant" "key"
    ⟨"default", "email", "\x7b\x7d", 5, 3, 60, [], none⟩ ⟨"", ""⟩⟩

def historySubmitted : Job :=
  submittedJob (envAt 9 2 3) "tenant" ⟨"default", "email", "\x7b\x7d", 5, 3, 60, [], none⟩

/-- The historical job gets its second generation, and the new one, whose stamp is the
one `0012` looks for, keeps its own. -/
theorem backfill_preserves_mixed :
    ∃ db', backfill (World.step ⟨historyDB, 8⟩ historySubmit).2.db = .ok db' ∧
    (∃ j ∈ db'.jobs.rows, j.id = 50 ∧ j.notificationGeneration = 2 ∧
      j.lastNotificationAt = some 7) ∧
    historySubmitted ∈ db'.jobs.rows ∧ historySubmitted.lastNotificationAt = some 9 ∧
    backfill db' = .ok db' := by
  have hstep := @World.step_step ⟨historyDB, 8⟩ historySubmit (by decide)
  obtain ⟨hrows, hfile, hreplays, hnotices⟩ :
      (World.step ⟨historyDB, 8⟩ historySubmit).2.db.jobs.rows = [historyJob, historySubmitted] ∧
      historyDB.caseFile 2 = ⟨none, [], [], [], [], []⟩ ∧
      isReplacement (World.step ⟨historyDB, 8⟩ historySubmit).2.db historyJob = false ∧
      (World.step ⟨historyDB, 8⟩ historySubmit).2.db.notices 50 =
        [workAvailableEvent 60 0 50 "default" 1 none, workAvailableEvent 61 7 50 "default" 1 none] := by
    decide +kernel
  have hmem : historyJob ∈ (World.step ⟨historyDB, 8⟩ historySubmit).2.db.jobs.rows := by
    rw [hrows]
    exact List.mem_cons_self
  have hmem' : historySubmitted ∈ (World.step ⟨historyDB, 8⟩ historySubmit).2.db.jobs.rows := by
    rw [hrows]
    exact List.mem_cons_of_mem _ List.mem_cons_self
  have huntouched : Untouched (World.step ⟨historyDB, 8⟩ historySubmit).2.db historyJob :=
    ⟨rfl, rfl, hreplays⟩
  have hauthored : Authored (World.step ⟨historyDB, 8⟩ historySubmit).2.db historySubmitted := by
    refine ⟨⟨historyDB, 8⟩, _, _, hfile, .cons (.store hstep) (.nil _), ?_, hmem', rfl,
      fun r hr _ => hr⟩
    intro t ht l hl
    cases List.mem_singleton.mp ht
    cases hl
    have hcall : (World.step ⟨historyDB, 8⟩ historySubmit).1.request.call = historySubmit.call := by
      rw [World.step_request]
    refine ⟨fun j _ hj => ?_, fun jobID after hj => ?_⟩
    · cases hcall.symm.trans hj
    · cases hcall.symm.trans hj
  have hclasses : ∀ j ∈ (World.step ⟨historyDB, 8⟩ historySubmit).2.db.jobs.rows,
      Untouched (World.step ⟨historyDB, 8⟩ historySubmit).2.db j ∨
        Authored (World.step ⟨historyDB, 8⟩ historySubmit).2.db j := by
    rw [hrows]
    intro j hj
    rcases List.mem_cons.mp hj with rfl | hj
    · exact .inl huntouched
    · cases List.mem_singleton.mp hj
      exact .inr hauthored
  obtain ⟨db', hok, hhistory, hcurrent, hagain⟩ := backfill_preserves hclasses
  have hid : historyJob.id = 50 := rfl
  obtain ⟨j', hj', rfl, -⟩ := hhistory historyJob hmem huntouched (by rw [hid, hnotices]; nofun)
  refine ⟨db', hok, ⟨_, hj', rfl, ?_, ?_⟩, (hcurrent _ hmem' hauthored).1, rfl, hagain⟩
  · simp only [hid, hnotices]
    rfl
  · simp only [hid, hnotices]
    rfl

end TaskForge
