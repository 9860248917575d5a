/-
Whether an accepted schedule can be shown.

`Normalize` parses a schedule with any offset and keeps the instant. A `time.Time` is
encoded in UTC and refuses a year of other than four digits, and an offset can take an
instant of year 9999 to 10000, or of year 0 to -1. `writeJSON` sends the status line
before it encodes, so a job with such a schedule is answered with success and no body:
on its submission, on every read, and on every page that lists it, together with the
other jobs of the page.

The schedule of a job never changes and the other instants are the server's own, so
this is decided at submission (`schedule_rendered_iff`).
-/
import TaskForge.SuccessReport

open Relational Fallible Json Runs

namespace TaskForge

/-! ## Every payload is a canonical object -/

/-- A submission of the trace is one that validation promises its shape of. -/
def Label.Normal (explain : Text → String) (l : Label) : Prop :=
  ∀ scope key req trace, l.request.call = .submit scope key req trace →
    ∃ r, Normalized explain r req

/-- The payloads that are stored are objects in canonical spelling. -/
def CanonicalJobs (db : DB) : Prop :=
  ∀ j ∈ db.jobs.rows, ∃ members, CanonicalObject j.payload.toList members

section Runs

variable {explain : Text → String} {w w' : World} {l : Label} {trace : List Label}

theorem Job.payload_of_definition {j k : Job} (h : j.definition = k.definition) :
    j.id = k.id ∧ j.payload = k.payload := by
  simp only [Job.definition, Prod.mk.injEq] at h
  exact ⟨h.1, h.2.2.2.2.1⟩

theorem Step.canonicalJobs (hs : Step w l w') (hnormal : l.Normal explain)
    (h : CanonicalJobs w.db) : CanonicalJobs w'.db := by
  intro j' hj'
  cases hs.commit.job_origin hj' with
  | kept j mem definition schedule =>
    rw [(Job.payload_of_definition definition).2]
    exact h j mem
  | submitted scope key req trace made eq =>
    obtain ⟨r, hr⟩ := hnormal scope key req trace made
    rw [eq]
    exact normalizePayload_eq_ok hr.payload
  | replacement scope original mem eq =>
    rw [eq]
    exact h original mem

theorem canonicalJobs_of_run (hinit : Initial w) (hrun : Execution w trace w')
    (hnormal : ∀ l ∈ trace, l.Normal explain) : CanonicalJobs w'.db := by
  refine (hrun.restrict hnormal).invariant (P := fun v => CanonicalJobs v.db)
    (fun hv hstep => hstep.1.canonicalJobs hstep.2 hv) fun j hj => ?_
  rw [hinit.jobs] at hj
  cases hj

end Runs

/-! ## Responses -/

/-- `json.RawMessage`, where it is not left out; none if it is not valid. -/
def rawMessage (raw : String) : Option Text :=
  if validJSON raw then some (compact true raw.toList) else none

/-- `time.Time`, of an instant in nanoseconds. -/
def timeText (t : Int) : Option Text :=
  (Calendar.formatRFC3339Nano t).map fun s => encode wire (.string s)

/-- `*time.Time` -/
def timePointer : Option Int → Option Text
  | none => some (encode wire .null)
  | some t => timeText t

/-- The fields of `toJobSummaryResponse`, and of `toJobResponse` with the payload among
them; none if an instant cannot be encoded. -/
def jobFields (s : JobSummary) (payload : List (Text × Text)) : Option (List (Text × Text)) := do
  let scheduledAt ← timePointer s.scheduledAt
  let availableAt ← timeText s.availableAt
  let cancelRequestedAt ← timePointer s.cancelRequestedAt
  let createdAt ← timeText s.createdAt
  let updatedAt ← timeText s.updatedAt
  some ([("id".toList, encode wire (stringValue (uuidString s.id))),
    ("queue".toList, encode wire (stringValue s.queue)),
    ("job_type".toList, encode wire (stringValue s.type_))] ++ payload ++
    [("status".toList, encode wire (stringValue s.status.text)),
    ("priority".toList, encode wire (intValue s.priority)),
    ("max_attempts".toList, encode wire (intValue s.maxAttempts)),
    ("timeout_seconds".toList, encode wire (intValue s.timeoutSeconds)),
    ("required_capabilities".toList, encode wire (stringsValue s.requiredCapabilities)),
    ("scheduled_at".toList, scheduledAt),
    ("available_at".toList, availableAt),
    ("cancel_requested_at".toList, cancelRequestedAt),
    ("replayed_from_job_id".toList, encode wire
      (s.replayedFromJobID.elim .null fun id => stringValue (uuidString id))),
    ("created_at".toList, createdAt),
    ("updated_at".toList, updatedAt)])

/-- A job without its payload. -/
def JobView.summary (v : JobView) : JobSummary where
  id := v.id
  queue := v.queue
  type_ := v.type_
  status := v.status
  priority := v.priority
  maxAttempts := v.maxAttempts
  timeoutSeconds := v.timeoutSeconds
  requiredCapabilities := v.requiredCapabilities
  scheduledAt := v.scheduledAt
  availableAt := v.availableAt
  cancelRequestedAt := v.cancelRequestedAt
  replayedFromJobID := v.replayedFromJobID
  createdAt := v.createdAt
  updatedAt := v.updatedAt

/-- The text of `toJobResponse`, of a job whose payload is the given text. -/
def jobResponseText (payload : String) (v : JobView) : Option Text := do
  let raw ← rawMessage payload
  let fields ← jobFields v.summary [("payload".toList, raw)]
  some (objectText wire fields)

/-- The text of `toJobSummaryResponse`. -/
def jobSummaryText (s : JobSummary) : Option Text := (jobFields s []).map (objectText wire)

/-- The text of a `JobPageResponse`. -/
def jobPageText (page : Page JobSummary) : Option Text :=
  (page.items.mapM jobSummaryText).map fun jobs => objectText wire
    ([("jobs".toList, '[' :: (joinWith wire.comma jobs ++ [']']))] ++
      omitEmpty "next_cursor" page.nextCursor)

/-- The payload of a job that was read from the database. -/
def readPayload (J : Jsonb) (v : JobView) : String := String.ofList (payloadText J v.payload)

/-- The body of the answer to a submission: a new job has the payload it came with, and
one that was there is read. -/
def submitResponse (J : Jsonb) (r : SubmitResult) : Text :=
  writeJSON (jobResponseText (if r.replayed then readPayload J r.job else r.job.payload) r.job)

/-- The body of the answer to `GET /v1/jobs/{job_id}`. -/
def getResponse (J : Jsonb) (v : JobView) : Text := writeJSON (jobResponseText (readPayload J v) v)

/-- The body of a page of `GET /v1/jobs`. -/
def listResponse (page : Page JobSummary) : Text := writeJSON (jobPageText page)

/-! ## What it takes -/

section Encoding

/-- The instant is in a year of four digits, in UTC. -/
def FourDigits (t : Int) : Prop := 0 ≤ Calendar.yearOf t ∧ Calendar.yearOf t ≤ 9999

instance (t : Int) : Decidable (FourDigits t) := inferInstanceAs (Decidable (_ ∧ _))

theorem timeText_isSome {t : Int} : (timeText t).isSome = true ↔ FourDigits t := by
  unfold timeText Calendar.formatRFC3339Nano FourDigits
  split_ifs with h
  · exact iff_of_true rfl h
  · exact iff_of_false Bool.false_ne_true h

theorem timePointer_isSome {t : Option Int} :
    (timePointer t).isSome = true ↔ ∀ s, t = some s → FourDigits s := by
  cases t with
  | none => exact iff_of_true rfl (by rintro s ⟨⟩)
  | some s =>
    rw [timePointer, timeText_isSome]
    exact ⟨fun h s' hs' => Option.some.inj hs' ▸ h, fun h => h s rfl⟩

/-- A summary is encoded exactly when each of its instants is. -/
theorem jobFields_isSome {s : JobSummary} {payload : List (Text × Text)} :
    (jobFields s payload).isSome = true ↔
      (∀ t, s.scheduledAt = some t → FourDigits t) ∧ FourDigits s.availableAt ∧
        (∀ t, s.cancelRequestedAt = some t → FourDigits t) ∧ FourDigits s.createdAt ∧
        FourDigits s.updatedAt := by
  rw [← timePointer_isSome, ← timePointer_isSome, ← timeText_isSome, ← timeText_isSome,
    ← timeText_isSome]
  simp only [jobFields, Option.bind_eq_bind, Option.isSome_iff_exists, Option.bind_eq_some_iff,
    Option.some.injEq]
  constructor
  · rintro ⟨fields, s₁, h₁, s₂, h₂, s₃, h₃, s₄, h₄, s₅, h₅, -⟩
    exact ⟨⟨s₁, h₁⟩, ⟨s₂, h₂⟩, ⟨s₃, h₃⟩, ⟨s₄, h₄⟩, ⟨s₅, h₅⟩⟩
  · rintro ⟨⟨s₁, h₁⟩, ⟨s₂, h₂⟩, ⟨s₃, h₃⟩, ⟨s₄, h₄⟩, ⟨s₅, h₅⟩⟩
    exact ⟨_, s₁, h₁, s₂, h₂, s₃, h₃, s₄, h₄, s₅, h₅, rfl⟩

theorem jobSummaryText_isSome {s : JobSummary} :
    (jobSummaryText s).isSome = (jobFields s []).isSome := Option.isSome_map

theorem jobResponseText_isSome {payload : String} {v : JobView} (h : validJSON payload = true) :
    (jobResponseText payload v).isSome = true ↔ (jobFields v.summary []).isSome = true := by
  rw [jobFields_isSome, jobResponseText, rawMessage, if_pos h, ← jobFields_isSome]
  simp only [Option.bind_eq_bind, Option.bind_some, Option.isSome_iff_exists,
    Option.bind_eq_some_iff]
  constructor
  · rintro ⟨t, fields, hfields, -⟩
    exact ⟨fields, hfields⟩
  · rintro ⟨fields, hfields⟩
    exact ⟨_, fields, hfields, rfl⟩

/-- One entry that cannot be encoded leaves the whole page without a body. -/
theorem jobPageText_isSome {page : Page JobSummary} :
    (jobPageText page).isSome = true ↔ ∀ s ∈ page.items, (jobSummaryText s).isSome = true := by
  have key : ∀ items : List JobSummary, (items.mapM jobSummaryText).isSome = true ↔
      ∀ s ∈ items, (jobSummaryText s).isSome = true := by
    intro items
    induction items with
    | nil => simp
    | cons s items ih =>
      rw [List.forall_mem_cons, ← ih, List.mapM_cons]
      simp only [Option.bind_eq_bind, Option.pure_def, Option.isSome_iff_exists,
        Option.bind_eq_some_iff, Option.some.injEq]
      constructor
      · rintro ⟨_, t, ht, ts, hts, -⟩
        exact ⟨⟨t, ht⟩, ⟨ts, hts⟩⟩
      · rintro ⟨⟨t, ht⟩, ⟨ts, hts⟩⟩
        exact ⟨_, t, ht, ts, hts, rfl⟩
  rw [jobPageText, Option.isSome_map, key]

/-- There is a body exactly when the answer was encoded. -/
theorem writeJSON_ne_nil {t : Option Text} : writeJSON t ≠ [] ↔ t.isSome = true := by
  cases t with
  | none => exact iff_of_false (fun h => h rfl) Bool.false_ne_true
  | some t => exact iff_of_true (List.append_ne_nil_of_right_ne_nil t (List.cons_ne_nil _ _)) rfl

end Encoding

/-! ## The server's own instants -/

section Clocks

variable {env : Env} {db : DB} {id : UUID} {writes : Writes} {w w' : World} {l : Label}
  {trace : List Label}

/-- A year of four digits is an interval of whole microseconds. -/
theorem fourDigits_storeTime {t : Int} : FourDigits (goTime (storeTime t)) ↔ FourDigits t := by
  unfold FourDigits
  rw [Calendar.yearOf_between, Calendar.yearOf_between]
  unfold goTime storeTime Calendar.nanosPerDay Calendar.yearStart
  omega

theorem FourDigits.between {s t u : Int} (hs : FourDigits s) (hu : FourDigits u) (hst : s ≤ t)
    (htu : t ≤ u) : FourDigits t := by
  unfold FourDigits at hs hu ⊢
  rw [Calendar.yearOf_between] at hs hu ⊢
  omega

/-- The clock of a transaction stays within years of four digits, with the longest
retry delay there is. -/
structure Env.Dated (env : Env) : Prop where
  start : FourDigits (goTime env.clock.start)
  latest : FourDigits (goTime env.clock.s₂ + maxDelayMillis * millisecond)

namespace Env.Dated

theorem sample (h : env.Dated) {t : Int} (hfrom : env.clock.start ≤ t) (hto : t ≤ env.clock.s₂) :
    FourDigits (goTime t) := by
  have hdelay : 0 ≤ maxDelayMillis * millisecond := by decide
  refine h.start.between h.latest ?_ ?_
  · unfold goTime
    omega
  · unfold goTime
    omega

theorem s₀ (h : env.Dated) : FourDigits (goTime env.clock.s₀) := by
  have := env.clock.start_le
  have := env.clock.le₁
  have := env.clock.le₂
  exact h.sample (by omega) (by omega)

theorem s₁ (h : env.Dated) : FourDigits (goTime env.clock.s₁) := by
  have := env.clock.start_le
  have := env.clock.le₁
  have := env.clock.le₂
  exact h.sample (by omega) (by omega)

theorem retry (h : env.Dated) {class_ : FailureClass} {number used : ℕ} {maxAttempts : Int}
    {d : Decision}
    (hd : env.retryPolicy.decide class_ number used maxAttempts env.backoff = .ok d) :
    FourDigits (goTime (storedRetryAt d env.clock.s₀)) := by
  obtain ⟨hlo, hhi⟩ := decide_delay hd
  have := env.clock.start_le
  have := env.clock.le₁
  have := env.clock.le₂
  rw [storedRetryAt, fourDigits_storeTime]
  refine h.start.between h.latest ?_ ?_
  · unfold storedMillis goTime millisecond at *
    omega
  · unfold storedMillis goTime maxDelayMillis millisecond at *
    omega

end Env.Dated

/-- What the server wrote into a job itself is in such a year; a job becomes available
at an instant of the server's, or when it was scheduled. -/
structure Job.Dated (j : Job) : Prop where
  created : FourDigits (goTime j.createdAt)
  updated : FourDigits (goTime j.updatedAt)
  cancelRequested : ∀ t, j.cancelRequestedAt = some t → FourDigits (goTime t)
  available : FourDigits (goTime j.availableAt) ∨ j.scheduledAt = some j.availableAt

theorem submittedJob_dated (henv : env.Dated) (scope : String) (req : NormalizedRequest) :
    (submittedJob env scope req).Dated := by
  refine ⟨henv.start, henv.start, by rintro t ⟨⟩, ?_⟩
  simp only [submittedJob]
  by_cases hd : isDelayed env.clock.s₀ req = true
  · right
    rw [if_pos hd]
    cases hs : req.scheduledAt with
    | none => simp [isDelayed, hs] at hd
    | some t => rfl
  · left
    rw [if_neg hd]
    exact henv.s₀

theorem replacementJob_dated (henv : env.Dated) (scope : String) (original : Job) :
    (replacementJob env scope original).Dated :=
  ⟨henv.s₀, henv.s₀, by rintro t ⟨⟩, .inl henv.s₀⟩

/-- A finalized attempt moves its job to the server's clock or to the retry. -/
theorem Job.Dated.finalized {j : Job} (h : j.Dated) {d : Decision} {now : Int}
    (hnow : FourDigits (goTime now)) (hretry : FourDigits (goTime (storedRetryAt d now))) :
    (finalizedJob d now j).Dated := by
  unfold finalizedJob
  split_ifs
  · refine ⟨h.created, hnow, h.cancelRequested, ?_⟩
    simp only [movedJob]
    by_cases hzero : storedRetryAt d now = zeroTime
    · rw [if_pos hzero]
      exact h.available
    · rw [if_neg hzero]
      exact .inl hretry
  · exact ⟨h.created, hnow, h.cancelRequested, .inl hnow⟩
  · exact ⟨h.created, hnow, h.cancelRequested, h.available⟩

/-- Every update of a job writes the clock of its transaction. -/
theorem Lawful.job_dated (h : Lawful env db id writes) (henv : env.Dated) {old new : Job}
    (hold : old.Dated) (hw : writes.job = .replace old new) : new.Dated := by
  cases h with
  | submit | replay | renew => cases hw
  | cancel j target job cancelable =>
    cases hw
    refine ⟨hold.created, henv.s₀, ?_, hold.available⟩
    rintro t ht
    cases ht
    exact henv.s₀
  | promote => cases hw; exact ⟨hold.created, henv.s₀, hold.cancelRequested, hold.available⟩
  | renotify => cases hw; exact ⟨hold.created, hold.updated, hold.cancelRequested, hold.available⟩
  | claim => cases hw; exact ⟨hold.created, henv.s₁, hold.cancelRequested, hold.available⟩
  | start | succeed | cancellation =>
    cases hw; exact ⟨hold.created, henv.s₀, hold.cancelRequested, hold.available⟩
  | finalize scope o d j a l holds scope_eq ends decision identity =>
    cases hw
    exact hold.finalized henv.s₀ (henv.retry decision)

def DatedJobs (db : DB) : Prop := ∀ j ∈ db.jobs.rows, j.Dated

theorem Step.datedJobs (hs : Step w l w') (henv : l.request.env.Dated) (h : DatedJobs w.db) :
    DatedJobs w'.db := by
  intro j hj
  cases hs.effect with
  | unchanged same =>
    rw [same] at hj
    exact h j hj
  | sessions only =>
    rw [only.jobs] at hj
    exact h j hj
  | move id writes lawful applied =>
    rw [applied.jobs] at hj
    rcases RowWrite.mem_apply hj with hmem | hinsert | ⟨old, hold, hreplace⟩
    · exact h j hmem
    · cases lawful with
      | submit scope key req =>
        cases hinsert
        exact submittedJob_dated henv scope req
      | replay scope key original =>
        cases hinsert
        exact replacementJob_dated henv scope original
      | _ => cases hinsert
    · exact lawful.job_dated henv (h old hold) hreplace

theorem datedJobs_of_run (hinit : Initial w) (hrun : Execution w trace w')
    (henv : ∀ l ∈ trace, l.request.env.Dated) : DatedJobs w'.db := by
  refine (hrun.restrict henv).invariant (P := fun v => DatedJobs v.db)
    (fun hv hstep => hstep.1.datedJobs hstep.2 hv) fun j hj => ?_
  rw [hinit.jobs] at hj
  cases hj

/-- A job keeps the schedule it was made with. -/
theorem Step.scheduled (hs : Step w l w') {j : Job} (hj : j ∈ w.db.jobs.rows) :
    ∃ j' ∈ w'.db.jobs.rows, j'.id = j.id ∧ j'.scheduledAt = j.scheduledAt := by
  cases hs.effect with
  | unchanged same => exact ⟨j, same ▸ hj, rfl, rfl⟩
  | sessions only => exact ⟨j, only.jobs ▸ hj, rfl, rfl⟩
  | move id writes lawful applied =>
    rw [applied.jobs]
    rcases RowWrite.kept_or_replaced (w := writes.job) hj with hkept | ⟨new, hnew, hmem⟩
    · exact ⟨j, hkept, rfl, rfl⟩
    · have hdefinition := (lawful.job_replaced hnew).2
      exact ⟨new, hmem, (Job.payload_of_definition hdefinition).1, (lawful.birth_kept hnew).1⟩

theorem scheduled_of_run (hrun : Execution w trace w') {j : Job} (hj : j ∈ w.db.jobs.rows) :
    ∃ j' ∈ w'.db.jobs.rows, j'.id = j.id ∧ j'.scheduledAt = j.scheduledAt := by
  refine hrun.invariant (P := fun v => ∃ j' ∈ v.db.jobs.rows, j'.id = j.id ∧
    j'.scheduledAt = j.scheduledAt) ?_ ⟨j, hj, rfl, rfl⟩
  rintro v l v' ⟨k, hk, hid, hschedule⟩ hstep
  obtain ⟨k', hk', hid', hschedule'⟩ := hstep.scheduled hk
  exact ⟨k', hk', hid'.trans hid, hschedule'.trans hschedule⟩

end Clocks

/-! ## Schedules -/

/-- The schedule can be encoded, if there is one. -/
def Showable (scheduledAt : Option Int) : Prop := ∀ t, scheduledAt = some t → FourDigits t

section Schedules

variable {explain : Text → String} {env : Env} {scope : String} {req : NormalizedRequest} {j : Job}
  {w w' : World} {l : Label} {trace : List Label}
variable {members : List (Text × Value)} {db db' : DB} {key cursor : String} {t : TraceContext}
  {sr : SubmitResult} {codec : Codec} {filter : JobFilter} {limit : Int} {page : Page JobSummary}

theorem showable_stored {scheduledAt : Option Int} :
    Showable ((scheduledAt.map storeTime).map goTime) ↔ Showable scheduledAt := by
  cases scheduledAt with
  | none => exact iff_of_true (by rintro t ⟨⟩) (by rintro t ⟨⟩)
  | some t =>
    have hone : ∀ u, Showable (some u) ↔ FourDigits u := fun u =>
      ⟨fun h => h u rfl, fun h v hv => Option.some.inj hv ▸ h⟩
    exact (hone _).trans (fourDigits_storeTime.trans (hone t).symm)

/-- Of a stored job, only the schedule can be beyond encoding. -/
theorem Job.Dated.shown_iff (h : j.Dated) :
    (jobFields (jobSummary j) []).isSome = true ↔ Showable (j.scheduledAt.map goTime) := by
  rw [jobFields_isSome]
  refine ⟨fun hall => hall.1, fun hschedule => ⟨hschedule, ?_, ?_, h.created, h.updated⟩⟩
  · rcases h.available with havailable | hscheduled
    · exact havailable
    · exact hschedule _ (congrArg (Option.map goTime) hscheduled)
  · intro t ht
    obtain ⟨u, hu, rfl⟩ := Option.map_eq_some_iff.mp ht
    exact h.cancelRequested u hu

theorem submittedView_shown_iff (henv : env.Dated) :
    (jobFields (submittedView env scope req).summary []).isSome = true ↔
      Showable req.scheduledAt := by
  rw [jobFields_isSome]
  refine ⟨fun hall => hall.1, fun hschedule => ⟨hschedule, ?_, by rintro t ⟨⟩, henv.start,
    henv.start⟩⟩
  simp only [JobView.summary, submittedView]
  by_cases hd : isDelayed env.clock.s₀ req = true
  · rw [if_pos hd]
    cases hs : req.scheduledAt with
    | none => simp [isDelayed, hs] at hd
    | some t => exact hschedule t hs
  · rw [if_neg hd]
    exact henv.s₀

/-- A canonical payload is valid, and stays valid in the database. -/
theorem CanonicalObject.valid {payload : String} (h : CanonicalObject payload.toList members)
    (J : Jsonb) :
    validJSON payload = true ∧ validJSON (String.ofList (payloadText J payload)) = true := by
  have hvalid : ∀ (style : Style) (v : Value), style.Lawful → v.Within maxNestingDepth →
      (∀ literal, v ≠ .number literal) → validJSON (String.ofList (encode style v)) = true := by
    intro style v hstyle hv hnumber
    have hread := read_encode hstyle hv (r := []) (by
      rintro ⟨literal, hl⟩
      exact absurd hl (hnumber literal))
    rw [List.append_nil] at hread
    rw [validJSON, String.toList_ofList, hread]
    rfl
  constructor
  · have htext : payload = String.ofList (encode (goStyle false) (.object members)) := by
      rw [← h.text, String.ofList_toList]
    rw [htext]
    exact hvalid _ _ (goStyle_lawful false) h.within (by rintro literal ⟨⟩)
  · rw [payloadText, h.documentOf, Option.map_some, Option.getD_some]
    exact hvalid _ _ jsonbStyle_lawful (J.stored_within h.within) (by rintro literal ⟨⟩)

theorem getResponse_iff (J : Jsonb) (hdated : j.Dated)
    (hcanonical : CanonicalObject j.payload.toList members) :
    getResponse J (scanJob j) ≠ [] ↔ Showable (j.scheduledAt.map goTime) := by
  have hvalid : validJSON (readPayload J (scanJob j)) = true := (hcanonical.valid J).2
  rw [getResponse, writeJSON_ne_nil, jobResponseText_isSome hvalid]
  exact hdated.shown_iff

/-- What a submission is answered with: a job that was there, or the one it made. -/
theorem submit_answer (h : submit env scope key req t db = .ok (sr, db')) :
    (sr.replayed = true ∧ ∃ j ∈ db.jobs.rows, sr.job = scanJob j) ∨
      (sr = ⟨submittedView env scope req, false⟩ ∧ submittedJob env scope req ∈ db'.jobs.rows) := by
  rcases submit_eq_ok h with ⟨-, hreplayed⟩ | ⟨-, hsr, happlied⟩
  · left
    refine ⟨hreplayed, ?_⟩
    simp only [submit, bind_eq_ok, demand_eq_ok, ite_eq_ok, pure_eq_ok, Prod.mk.injEq] at h
    obtain ⟨-, -, -, -, ⟨-, r, hres, rfl, -⟩ | ⟨-, -, -, -, -, rfl, -⟩⟩ := h
    · simp only [resolveExisting, getByID, bind_eq_ok, pure_eq_ok, fetch_eq_ok] at hres
      obtain ⟨record, _, _, _, view, hview, rfl⟩ := hres
      obtain ⟨j, hj, rfl⟩ := Option.map_eq_some_iff.mp hview
      exact ⟨j, (jobInScope_eq_some hj).1, rfl⟩
    · cases hreplayed
  · right
    refine ⟨hsr, ?_⟩
    rw [happlied.jobs]
    exact List.mem_append_right _ (List.mem_singleton_self _)

/-- Every answer to a submission has a body exactly when the schedule it shows does. -/
theorem submitResponse_iff (J : Jsonb) (h : submit env scope key req t db = .ok (sr, db'))
    (henv : env.Dated) (hdated : DatedJobs db) (hcanonical : CanonicalJobs db)
    (hcanonical' : CanonicalJobs db') :
    submitResponse J sr ≠ [] ↔ Showable sr.job.scheduledAt := by
  rcases submit_answer h with ⟨hreplayed, j, hj, hview⟩ | ⟨rfl, hmem⟩
  · obtain ⟨members, hmembers⟩ := hcanonical j hj
    rw [submitResponse, hreplayed, if_pos rfl, hview]
    exact getResponse_iff J (hdated j hj) hmembers
  · obtain ⟨members, hmembers⟩ := hcanonical' _ hmem
    have hvalid : validJSON (submittedView env scope req).payload = true := (hmembers.valid J).1
    rw [submitResponse, if_neg Bool.false_ne_true, writeJSON_ne_nil, jobResponseText_isSome hvalid]
    exact submittedView_shown_iff henv

/-- What a page lists are jobs. -/
theorem listed_rows (h : listJobs codec db scope filter cursor limit = .ok page) :
    ∀ s ∈ page.items, ∃ j ∈ db.jobs.rows, jobSummary j = s := by
  simp only [listJobs, bind_eq_ok, pure_eq_ok] at h
  obtain ⟨_, _, after, _, rfl⟩ := h
  intro s hs
  obtain ⟨j, hj, hsummary⟩ := List.mem_map.mp (mem_cutPage hs)
  exact ⟨j, (mem_listing.mp (List.mem_of_mem_take hj)).1, hsummary⟩

/-- A page has a body exactly when every schedule on it can be shown. -/
theorem listResponse_iff (hdated : DatedJobs db)
    (h : listJobs codec db scope filter cursor limit = .ok page) :
    listResponse page ≠ [] ↔ ∀ s ∈ page.items, Showable s.scheduledAt := by
  rw [listResponse, writeJSON_ne_nil, jobPageText_isSome]
  refine forall₂_congr fun s hs => ?_
  obtain ⟨j, hj, rfl⟩ := listed_rows h s hs
  rw [jobSummaryText_isSome]
  exact (hdated j hj).shown_iff

/-- Every submission of the label is of a request `Normalize` accepted. -/
def Label.Normalizes (explain : Text → String) (l : Label) : Prop :=
  ∀ scope key req t, l.request.call = .submit scope key req t →
    ∃ r : SubmitRequest, r.normalize explain = .ok req

/-- And its schedule is in a year of four digits. -/
def Label.Showable (l : Label) : Prop :=
  ∀ scope key req t, l.request.call = .submit scope key req t →
    TaskForge.Showable req.scheduledAt

theorem Label.Normalizes.normal (h : l.Normalizes explain) : l.Normal explain := by
  intro scope key req t hcall
  obtain ⟨r, hr⟩ := h scope key req t hcall
  exact ⟨r, normalize_eq_ok hr⟩

def ShowableJobs (db : DB) : Prop := ∀ j ∈ db.jobs.rows, Showable (j.scheduledAt.map goTime)

theorem showableJobs_of_run (hinit : Initial w) (hrun : Execution w trace w')
    (h : ∀ l ∈ trace, l.Showable) : ShowableJobs w'.db := by
  refine (hrun.restrict h).invariant (P := fun v => ShowableJobs v.db) ?_ fun j hj => ?_
  · rintro v l v' hv ⟨hstep, hl⟩ j' hj'
    cases hstep.commit.job_origin hj' with
    | kept j mem definition schedule =>
      rw [schedule]
      exact hv j mem
    | submitted scope key req t made eq =>
      rw [eq]
      exact showable_stored.mpr (hl scope key req t made)
    | replacement scope original mem eq =>
      rw [eq]
      rintro t ⟨⟩
  · rw [hinit.jobs] at hj
    cases hj

/-- What is known of every state of a run. -/
theorem shown_of_run (J : Jsonb) (hinit : Initial w) (hrun : Execution w trace w')
    (hnormal : ∀ l ∈ trace, l.Normalizes explain) (hdated : ∀ l ∈ trace, l.request.env.Dated) :
    DatedJobs w'.db ∧ CanonicalJobs w'.db ∧ ∀ j ∈ w'.db.jobs.rows,
      (getResponse J (scanJob j) ≠ [] ↔ Showable (j.scheduledAt.map goTime)) := by
  have hjobs := datedJobs_of_run hinit hrun hdated
  have hcanonical := canonicalJobs_of_run hinit hrun fun l hl => (hnormal l hl).normal
  refine ⟨hjobs, hcanonical, fun j hj => ?_⟩
  obtain ⟨members, hmembers⟩ := hcanonical j hj
  exact getResponse_iff J (hjobs j hj) hmembers

/-- A submission in a run: the answer to it, and the job it made, at the end. -/
theorem submission_shown (J : Jsonb) (hinit : Initial w) (hrun : Execution w trace w')
    (hnormal : ∀ l ∈ trace, l.Normalizes explain) (hdated : ∀ l ∈ trace, l.request.env.Dated)
    (hl : l ∈ trace) (hcall : l.request.call = .submit scope key req t)
    (hout : l.outcome = .ok (.submitted sr)) :
    (submitResponse J sr ≠ [] ↔ Showable sr.job.scheduledAt) ∧
      (sr.replayed = false → sr.job.scheduledAt = req.scheduledAt ∧
        ∀ j ∈ w'.db.jobs.rows, j.id = sr.job.id → j.scheduledAt = req.scheduledAt.map storeTime) ∧
      ((∀ m ∈ trace, m.Showable) → Showable sr.job.scheduledAt) := by
  obtain ⟨pre, post, w₁, w₂, htrace, hpre, hstep, hpost⟩ := hrun.exists_step_of_mem hl
  have hbefore : ∀ m ∈ pre, m ∈ trace := fun m hm => htrace ▸ List.mem_append_left _ hm
  have hrun₂ : Execution w (pre ++ [l]) w₂ := hpre.append (.cons hstep (.nil w₂))
  have hupto : ∀ m ∈ pre ++ [l], m ∈ trace := by
    intro m hm
    rcases List.mem_append.mp hm with hm | hm
    · exact hbefore m hm
    · exact List.mem_singleton.mp hm ▸ hl
  obtain ⟨hjobs, hcanonical, -⟩ := shown_of_run J hinit hpre (fun m hm => hnormal m (hbefore m hm))
    fun m hm => hdated m (hbefore m hm)
  obtain ⟨-, hcanonical', -⟩ := shown_of_run J hinit hrun₂ (fun m hm => hnormal m (hupto m hm))
    fun m hm => hdated m (hupto m hm)
  have hsubmit := hstep.submitted hcall hout
  refine ⟨submitResponse_iff J hsubmit (hdated l hl) hjobs hcanonical hcanonical', ?_, ?_⟩
  · intro hnew
    obtain ⟨hview, hmem, -⟩ := hstep.submitted_first hcall hout hnew
    rw [hview]
    refine ⟨rfl, fun j hj hid => ?_⟩
    obtain ⟨k, hk, hkid, hschedule⟩ := scheduled_of_run hpost hmem
    rw [w'.db.job_eq_of_id hj hk (hid.trans hkid.symm), hschedule]
    rfl
  · intro hall
    rcases submit_answer hsubmit with ⟨-, j, hj, hview⟩ | ⟨rfl, -⟩
    · rw [hview]
      exact showableJobs_of_run hinit hpre (fun m hm => hall m (hbefore m hm)) j hj
    · exact hall _ hl scope key req t hcall

/-- **Schedules that can be shown.** In every run of accepted requests on a clock of
four-digit years: the answer to a new submission, every later read of its job and its
entry in a listing have a body exactly when the UTC year of its schedule has four
digits; a page has one exactly when every schedule on it does; and if every schedule
does, there is no answer without a body. -/
theorem schedule_rendered_iff (J : Jsonb) (hinit : Initial w) (hrun : Execution w trace w')
    (hnormal : ∀ l ∈ trace, l.Normalizes explain)
    (hdated : ∀ l ∈ trace, l.request.env.Dated) :
    (∀ l ∈ trace, ∀ scope key req t sr, l.request.call = .submit scope key req t →
      l.outcome = .ok (.submitted sr) → sr.replayed = false →
      (submitResponse J sr ≠ [] ↔ Showable req.scheduledAt) ∧
      ∀ j ∈ w'.db.jobs.rows, j.id = sr.job.id →
        (getResponse J (scanJob j) ≠ [] ↔ Showable req.scheduledAt) ∧
        ((jobSummaryText (jobSummary j)).isSome = true ↔ Showable req.scheduledAt)) ∧
    (∀ codec scope filter cursor limit page,
      listJobs codec w'.db scope filter cursor limit = .ok page →
      (listResponse page ≠ [] ↔ ∀ s ∈ page.items, Showable s.scheduledAt)) ∧
    ((∀ l ∈ trace, l.Showable) →
      (∀ l ∈ trace, ∀ scope key req t sr, l.request.call = .submit scope key req t →
        l.outcome = .ok (.submitted sr) → submitResponse J sr ≠ []) ∧
      (∀ j ∈ w'.db.jobs.rows, getResponse J (scanJob j) ≠ []) ∧
      ∀ codec scope filter cursor limit page,
        listJobs codec w'.db scope filter cursor limit = .ok page → listResponse page ≠ []) := by
  obtain ⟨hjobs, -, hget⟩ := shown_of_run J hinit hrun hnormal hdated
  refine ⟨?_, fun _ _ _ _ _ _ hpage => listResponse_iff hjobs hpage, fun hall => ⟨?_, ?_, ?_⟩⟩
  · intro l hl scope key req t sr hcall hout hnew
    obtain ⟨hsubmit, hmade, -⟩ :=
      submission_shown J hinit hrun hnormal hdated hl hcall hout
    obtain ⟨hschedule, hstored⟩ := hmade hnew
    refine ⟨hschedule ▸ hsubmit, fun j hj hid => ?_⟩
    have hj' := hstored j hj hid
    rw [jobSummaryText_isSome, (hjobs j hj).shown_iff, hget j hj, hj']
    exact ⟨showable_stored, showable_stored⟩
  · intro l hl scope key req t sr hcall hout
    obtain ⟨hsubmit, -, hshow⟩ := submission_shown J hinit hrun hnormal hdated hl hcall hout
    exact hsubmit.mpr (hshow hall)
  · intro j hj
    exact (hget j hj).mpr (showableJobs_of_run hinit hrun hall j hj)
  · intro codec scope filter cursor limit page hpage
    refine (listResponse_iff hjobs hpage).mpr fun s hs => ?_
    obtain ⟨j, hj, rfl⟩ := listed_rows hpage s hs
    exact showableJobs_of_run hinit hrun hall j hj

end Schedules

/-- A request for the last second of year 9999, an hour west of Greenwich. -/
def lateSubmit : SubmitRequest :=
  { sampleSubmit "\x7b\x7d" with scheduledAt := some "9999-12-31T23:59:59-01:00" }

def lateNormal : NormalizedRequest :=
  { sampleNormal "\x7b\x7d" with scheduledAt := some 253402304399000000000 }

/-- An immediate job, and a late one in the same scope. -/
def lateRequests : List Request :=
  [⟨envAt 1 2 3, .submit "tenant" "plain" (sampleNormal "\x7b\x7d") ⟨"", ""⟩⟩,
    ⟨envAt 2 4 5, .submit "tenant" "late" lateNormal ⟨"", ""⟩⟩]

theorem lateRequests_known {reqs : List Request} (hreqs : ∀ r ∈ reqs, r ∈ lateRequests) :
    ∀ l ∈ (quiet.exec reqs).1, l.Normalizes (fun _ => "") ∧ l.request.env.Dated := by
  intro l hl
  have hplain : (sampleSubmit "\x7b\x7d").normalize (fun _ => "") =
      .ok (sampleNormal "\x7b\x7d") := by decide +kernel
  have hlate : lateSubmit.normalize (fun _ => "") = .ok lateNormal := by decide +kernel
  have hmem := hreqs _ (World.mem_exec_requests hl)
  simp only [lateRequests, List.mem_cons, List.not_mem_nil, or_false] at hmem
  rcases hmem with hrequest | hrequest
  · rw [hrequest]
    refine ⟨?_, by decide +kernel, by decide +kernel⟩
    intro scope key req t hcall
    rw [hrequest] at hcall
    cases hcall
    exact ⟨_, hplain⟩
  · rw [hrequest]
    refine ⟨?_, by decide +kernel, by decide +kernel⟩
    intro scope key req t hcall
    rw [hrequest] at hcall
    cases hcall
    exact ⟨_, hlate⟩

theorem schedule_rendered_plain :
    (quiet.exec (lateRequests.take 1)).2.db.jobs.rows ≠ [] ∧
      ∀ j ∈ (quiet.exec (lateRequests.take 1)).2.db.jobs.rows,
        getResponse plainJsonb (scanJob j) ≠ [] := by
  refine ⟨by decide +kernel, ?_⟩
  have hknown : ∀ l ∈ (quiet.exec (lateRequests.take 1)).1, _ :=
    lateRequests_known fun r hr => List.mem_of_mem_take hr
  have hrun : Execution quiet (quiet.exec (lateRequests.take 1)).1 _ := World.exec_run (by decide)
  refine ((schedule_rendered_iff plainJsonb quiet_initial hrun (fun l hl => (hknown l hl).1)
    fun l hl => (hknown l hl).2).2.2 fun l hl => ?_).2.1
  intro scope key req t hcall
  rw [List.mem_singleton.mp (World.mem_exec_requests hl)] at hcall
  cases hcall
  rintro t ⟨⟩

/-- The first page shows every job of a small scope. -/
theorem listJobs_few (codec : Codec) {db : DB} (h : db.jobs.rows.length ≤ 25) (scope : String) :
    ∃ page, listJobs codec db scope ⟨"", ""⟩ "" 0 = .ok page ∧
      ∀ j ∈ db.jobs.rows, j.scope = scope → jobSummary j ∈ page.items := by
  have hfew : (listing newestFirst Job.keyset (isListed scope ⟨"", ""⟩) none db.jobs.rows).length ≤
      25 := by
    rw [listing, (orderBy_perm _ _ _).length_eq]
    exact (List.length_filter_le _ _).trans h
  refine ⟨⟨(listing newestFirst Job.keyset (isListed scope ⟨"", ""⟩) none db.jobs.rows).map
    jobSummary, ""⟩, ?_, fun j hj hscope => ?_⟩
  · show Except.ok (cutPage 25 _ (((listing newestFirst Job.keyset _ none _).take 26).map
      jobSummary)) = _
    rw [List.take_of_length_le (by omega), cutPage, if_neg (by rw [List.length_map]; omega)]
  · refine List.mem_map_of_mem (mem_listing.mpr ⟨hj, ?_, rfl⟩)
    simp [isListed, hscope]

/-- The late job is accepted, and from then on its submission, its reads and the first
page of its scope, with the other job on it, are answered without a body. -/
theorem late_schedule_unrendered :
    lateSubmit.normalize (fun _ => "") = .ok lateNormal ∧
    ∀ (J : Jsonb) (codec : Codec), ∃ trace w l sr page, Execution quiet trace w ∧ l ∈ trace ∧
      l.request.call = .submit "tenant" "late" lateNormal ⟨"", ""⟩ ∧
      l.outcome = .ok (.submitted sr) ∧ submitResponse J sr = [] ∧
      (∃ j ∈ w.db.jobs.rows, j.id = sr.job.id ∧ getResponse J (scanJob j) = []) ∧
      listJobs codec w.db "tenant" ⟨"", ""⟩ "" 0 = .ok page ∧
      (∃ j ∈ w.db.jobs.rows, j.id ≠ sr.job.id ∧ jobSummary j ∈ page.items) ∧
      listResponse page = [] := by
  refine ⟨by decide +kernel, fun J codec => ?_⟩
  have hknown : ∀ l ∈ (quiet.exec lateRequests).1, _ := lateRequests_known fun r hr => hr
  have hrun : Execution quiet (quiet.exec lateRequests).1 (quiet.exec lateRequests).2 :=
    World.exec_run (by decide)
  have hlate : ¬ Showable (some 253402304399000000000) := fun h =>
    absurd (h _ rfl) (by decide +kernel)
  have hanswer : ∃ l ∈ (quiet.exec lateRequests).1,
      l.request.call = .submit "tenant" "late" lateNormal ⟨"", ""⟩ ∧
      l.outcome = .ok (.submitted ⟨submittedView (envAt 2 4 5) "tenant" lateNormal, false⟩) := by
    refine ⟨((quiet.exec (lateRequests.take 1)).2.step ⟨envAt 2 4 5, .submit "tenant" "late"
      lateNormal ⟨"", ""⟩⟩).1, List.mem_cons_of_mem _ List.mem_cons_self, ?_, by decide +kernel⟩
    rw [World.step_request]
  obtain ⟨l, hl, hcall, hout⟩ := hanswer
  obtain ⟨hjobs, -, hget⟩ := shown_of_run J quiet_initial hrun (fun l hl => (hknown l hl).1)
    fun l hl => (hknown l hl).2
  obtain ⟨hsubmit, -⟩ := submission_shown J quiet_initial hrun (fun l hl => (hknown l hl).1)
    (fun l hl => (hknown l hl).2) hl hcall hout
  have hrows : (quiet.exec lateRequests).2.db.jobs.rows =
      [submittedJob (envAt 1 2 3) "tenant" (sampleNormal "\x7b\x7d"),
        submittedJob (envAt 2 4 5) "tenant" lateNormal] := by decide +kernel
  obtain ⟨page, hpage, hlisted⟩ := listJobs_few codec (by rw [hrows]; decide) "tenant"
  have hmem : submittedJob (envAt 2 4 5) "tenant" lateNormal ∈
      (quiet.exec lateRequests).2.db.jobs.rows := by
    rw [hrows]
    exact List.mem_cons_of_mem _ List.mem_cons_self
  have hother : submittedJob (envAt 1 2 3) "tenant" (sampleNormal "\x7b\x7d") ∈
      (quiet.exec lateRequests).2.db.jobs.rows := by
    rw [hrows]
    exact List.mem_cons_self
  have hstored : ¬ Showable ((submittedJob (envAt 2 4 5) "tenant" lateNormal).scheduledAt.map
      goTime) := hlate
  refine ⟨_, _, l, _, page, hrun, hl, hcall, hout, ?_, ⟨_, hmem, rfl, ?_⟩, hpage,
    ⟨_, hother, by decide, hlisted _ hother rfl⟩, ?_⟩
  · by_contra hbody
    exact hlate (hsubmit.mp hbody)
  · by_contra hbody
    exact hstored ((hget _ hmem).mp hbody)
  · by_contra hbody
    exact hstored ((listResponse_iff hjobs hpage).mp hbody _ (hlisted _ hmem rfl))

end TaskForge
