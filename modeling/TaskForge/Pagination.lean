/-
Walking `ListJobs`, `ListDLQ` and `ListWorkers` to the end.

The three listings are keyset listings (`Keyset`): jobs and dead letters newest
first, by instant and id, workers by name. What ties a page to the next is a text,
base64 over a time in RFC 3339 and a UUID, or over a name; it is read back as the
position it was written for (`timePosition_encode`, `workerPosition_encode`).

Between two pages the database may change in any way that leaves a row its key: the
`created_at` of a job or a dead letter, the name of a worker (`Keyed`). No statement
of the store changes one (`keyed_of_runs`). RFC 3339 writes years in four digits, so a
cursor of a later instant is written and is not read back; instants of the server's
clock are not that late (`Dated`).
-/
import TaskForge.Keyset
import TaskForge.Base64
import TaskForge.Rendering
import TaskForge.SessionLife

open Relational Fallible

namespace TaskForge

/-! ## The text of a cursor -/

/-- `base64.RawURLEncoding.EncodeToString` -/
def rawURLEncode (s : String) : String := String.ofList (Base64.encode (Utf8.encode s.toList))

/-- `base64.RawURLEncoding.DecodeString`. Bytes that are no text are refused here, as
the parsers that follow would refuse them. -/
def rawURLDecode (s : String) : Option String := (Base64.decode s.toList).bind Utf8.text

/-- `Format(time.RFC3339Nano)` -/
def formatStamp (t : Int) : String := String.ofList (Calendar.appendRFC3339Nano t)

/-- `time.Parse(time.RFC3339Nano, …)` -/
def parseStamp (s : String) : Option Int := Calendar.parseRFC3339 s.toList

/-- The cursors' texts as the service writes them. -/
def goCodec : Codec where
  encodeToString := rawURLEncode
  decodeString := rawURLDecode
  formatTime := formatStamp
  parseTime := parseStamp
  formatUUID := uuidString
  parseUUID := parseUUID

section Cursors

theorem rawURLDecode_encode (s : String) : rawURLDecode (rawURLEncode s) = some s := by
  rw [rawURLDecode, rawURLEncode, String.toList_ofList, Base64.decode_encode, Option.bind_some]
  exact Utf8.text_eq_some.mpr rfl

/-- The cursor of a text is not empty unless the text is. -/
theorem rawURLEncode_ne_empty {s : String} (h : s ≠ "") : rawURLEncode s ≠ "" := by
  intro heq
  have hempty : rawURLEncode "" = "" := by simp [rawURLEncode, Utf8.encode, Base64.encode, Base64.groups]
  have hsome := rawURLDecode_encode s
  rw [heq, ← hempty, rawURLDecode_encode] at hsome
  exact h (Option.some.inj hsome).symm

theorem parseStamp_format {t : Int} (h : FourDigits t) : parseStamp (formatStamp t) = some t := by
  rw [parseStamp, formatStamp, String.toList_ofList]
  exact Calendar.parse_append h

theorem formatStamp_no_bar {t : Int} (h : FourDigits t) : '|' ∉ (formatStamp t).toList := by
  rw [formatStamp, String.toList_ofList, Calendar.appendRFC3339Nano_eq h]
  intro hmem
  rcases Calendar.Stamp.text_chars _ _ hmem with hdigit | hmark
  · exact absurd hdigit (by decide)
  · exact absurd hmark (by decide)

/-- A text is cut at its first bar. -/
theorem cutBar_append {before after : String} (h : '|' ∉ before.toList) :
    cutBar (before ++ "|" ++ after) = some (before, after) := by
  have hspan : ∀ t : List Char, '|' ∉ t →
      (t ++ '|' :: after.toList).span (· != '|') = (t, '|' :: after.toList) := by
    intro t ht
    rw [List.span_eq_takeWhile_dropWhile]
    have hall : ∀ c ∈ t, (c != '|') = true := fun c hc => bne_iff_ne.mpr fun he => ht (he ▸ hc)
    rw [List.takeWhile_append_of_pos hall, List.dropWhile_append_of_pos hall]
    simp
  have htext : (before ++ "|" ++ after).toList = before.toList ++ '|' :: after.toList := by
    simp [String.toList_append]
  unfold cutBar
  rw [htext, hspan before.toList h]
  simp

/-- **A time cursor is read back as it was written**, where its year has four digits. -/
theorem decodeTimeCursor_encode {t : Int} (h : FourDigits t) (id : UUID) :
    decodeTimeCursor goCodec (encodeTimeCursor goCodec t id) = .ok (t, id) := by
  simp only [decodeTimeCursor, encodeTimeCursor, goCodec, bind_eq_ok, orFail_eq_ok, pure_eq_ok]
  exact ⟨_, rawURLDecode_encode _, _, cutBar_append (formatStamp_no_bar h), t,
    parseStamp_format h, id, parseUUID_uuidString id, rfl⟩

theorem encodeTimeCursor_ne_empty (t : Int) (id : UUID) : encodeTimeCursor goCodec t id ≠ "" := by
  refine rawURLEncode_ne_empty fun h => ?_
  have hlen := congrArg (fun s : String => s.toList.length) h
  simp [String.toList_append] at hlen

theorem timePosition_encode {t : Int} (h : FourDigits (goTime t)) (id : UUID) :
    timePosition goCodec (encodeTimeCursor goCodec (goTime t) id) = .ok (some (t, id)) := by
  have hposition : position (decodeTimeCursor goCodec) (encodeTimeCursor goCodec (goTime t) id)
      = .ok (some (goTime t, id)) := by
    rw [position, if_neg (encodeTimeCursor_ne_empty _ _), decodeTimeCursor_encode h id]
    rfl
  rw [timePosition, hposition, ok_bind, Option.map_some]
  simp only [storeTime_goTime]
  rfl

/-- **A worker cursor is read back as the name it was written for.** -/
theorem decodeWorkerCursor_encode {name : String} (h : matchesName 127 name = true) :
    decodeWorkerCursor goCodec (encodeWorkerCursor goCodec name) = .ok name := by
  simp only [decodeWorkerCursor, encodeWorkerCursor, goCodec, bind_eq_ok, orFail_eq_ok,
    ensure_eq_ok, pure_eq_ok]
  exact ⟨name, rawURLDecode_encode name, (), h, rfl⟩

theorem workerPosition_encode {name : String} (h : matchesName 127 name = true) :
    position (decodeWorkerCursor goCodec) (encodeWorkerCursor goCodec name) = .ok (some name) := by
  have hne : encodeWorkerCursor goCodec name ≠ "" :=
    rawURLEncode_ne_empty (ne_empty_of_matchesName h)
  rw [position, if_neg hne, decodeWorkerCursor_encode h]
  rfl

end Cursors

/-! ## Histories -/

/-- The database at each page of a walk: whatever changes, a job and a dead letter keep
their `created_at`, and a worker its name. -/
structure Keyed (hist : ℕ → DB) : Prop where
  jobs : ∀ k m, ∀ i ∈ (hist k).jobs.rows, ∀ j ∈ (hist m).jobs.rows, i.id = j.id →
    i.createdAt = j.createdAt
  dlqEntries : ∀ k m, ∀ d ∈ (hist k).dlqEntries.rows, ∀ e ∈ (hist m).dlqEntries.rows,
    d.id = e.id → d.createdAt = e.createdAt
  workers : ∀ k m, ∀ x ∈ (hist k).workers.rows, ∀ y ∈ (hist m).workers.rows, x.id = y.id →
    x.name = y.name

/-- The instants that cursors are made of are in years of four digits. -/
structure Dated (db : DB) : Prop where
  jobs : ∀ j ∈ db.jobs.rows, FourDigits (goTime j.createdAt)
  dlqEntries : ∀ d ∈ db.dlqEntries.rows, FourDigits (goTime d.createdAt)

/-- `ORDER BY created_at DESC, id DESC` -/
def Newer (createdAt : Int) (id : UUID) (createdAt' : Int) (id' : UUID) : Prop :=
  createdAt' < createdAt ∨ createdAt' = createdAt ∧ id' < id

/-- The strict order of the listings, written out. -/
theorem newestFirst_lt {t t' : Int} {id id' : UUID} :
    newestFirst.lt (storeTime (goTime t), id) (storeTime (goTime t'), id') = true ↔
      Newer (goTime t) id (goTime t') id' := by
  rw [storeTime_goTime, storeTime_goTime]
  simp only [Newer, SortOrder.lt, newestFirst, timeOrder, SortOrder.reverse,
    SortOrder.lex, SortOrder.asc, SortOrder.comap, Bool.not_eq_true', Bool.and_eq_false_iff,
    Bool.or_eq_false_iff, decide_eq_false_iff_not, Bool.not_eq_false', decide_eq_true_eq,
    BitVec.lt_def, goTime]
  omega

theorem boundPage_pos {default most : ℕ} (hdefault : 0 < default) (hmost : 0 < most) (limit : Int) :
    0 < boundPage default most limit := by
  unfold boundPage
  split_ifs <;> omega

/-! ## The three listings -/

section Listings

variable {hist : ℕ → DB} {scope : String}

/-- A job as its listing shows it. -/
def shownJob (j : Job) : Option JobSummary := some (jobSummary j)

/-- `ListJobs` is a keyset listing. -/
theorem listJobs_lists (hdated : ∀ k, Dated (hist k)) (filter : JobFilter)
    (hfilter : filter.validate = .ok ()) (limits : ℕ → Int) :
    Lists newestFirst (fun x : JobSummary => (storeTime x.createdAt, x.id))
      (fun x => encodeTimeCursor goCodec x.createdAt x.id)
      (fun k => shown newestFirst Job.keyset (isListed scope filter) shownJob none
        (hist k).jobs.rows)
      (fun k => boundPage defaultPageSize maxPageSize (limits k))
      (fun k cursor => listJobs goCodec (hist k) scope filter cursor (limits k)) := by
  refine Lists.of_reads (timePosition goCodec) (fun k => (hist k).jobs.nodup) ?_ ?_
    (fun k => boundPage_pos (by decide) (by decide) _) rfl ?_ ?_
  · intro k i hi j hj _ _ h
    exact (hist k).job_eq_of_id hi hj (Prod.mk.inj h).2
  · rintro k j x ⟨⟩
    exact Prod.ext (storeTime_goTime j.createdAt) rfl
  · rintro k j hj x ⟨⟩
    exact ⟨encodeTimeCursor_ne_empty _ _, timePosition_encode ((hdated k).jobs j hj) j.id⟩
  · intro k cursor p hp
    have hmap : ∀ l : List Job, l.filterMap shownJob = l.map jobSummary :=
      fun l => congrFun List.filterMap_eq_map l
    simp only [listJobs, hfilter, ok_bind, hp, shown, hmap, List.map_take]
    rfl

/-- A dead letter is shown under its own id and instant. -/
theorem joinEntry_key {db : DB} {d : DLQEntry} {x : DLQEntryView} (h : joinEntry db d = some x) :
    x.createdAt = goTime d.createdAt ∧ x.id = d.id := by
  simp only [joinEntry, Option.bind_eq_bind, Option.bind_eq_some_iff, Option.some.injEq] at h
  obtain ⟨j, -, rfl⟩ := h
  exact ⟨rfl, rfl⟩

/-- A worker is shown under its own id and name. -/
theorem joinSession_key {now : Int} {db : DB} {w : Worker} {x : WorkerSummary}
    (h : joinSession now db w = some x) : x.name = w.name ∧ x.id = w.id := by
  simp only [joinSession, Option.bind_eq_bind, Option.bind_eq_some_iff, Option.some.injEq] at h
  obtain ⟨s, -, rfl⟩ := h
  exact ⟨rfl, rfl⟩

/-- `ListDLQ` is a keyset listing. -/
theorem listDLQ_lists (hdated : ∀ k, Dated (hist k)) (limits : ℕ → Int) :
    Lists newestFirst (fun x : DLQEntryView => (storeTime x.createdAt, x.id))
      (fun x => encodeTimeCursor goCodec x.createdAt x.id)
      (fun k => shown newestFirst DLQEntry.keyset (fun d => d.scope == scope) (joinEntry (hist k))
        none (hist k).dlqEntries.rows)
      (fun k => boundPage defaultDLQPageSize maxDLQPageSize (limits k))
      (fun k cursor => listDLQ goCodec (hist k) scope cursor (limits k)) := by
  refine Lists.of_reads (timePosition goCodec) (fun k => (hist k).dlqEntries.nodup) ?_ ?_
    (fun k => boundPage_pos (by decide) (by decide) _) rfl ?_ ?_
  · intro k d hd e he _ _ h
    refine (hist k).dlqEntries.eq_of_clash hd he (Bool.or_eq_true_iff.mpr (.inl ?_))
    exact sameKey_eq_true.mpr ⟨d.id, rfl, congrArg some (Prod.mk.inj h).2.symm⟩
  · intro k d x hx
    obtain ⟨hcreated, hid⟩ := joinEntry_key hx
    rw [hcreated, hid, storeTime_goTime]
    rfl
  · intro k d hd x hx
    obtain ⟨hcreated, hid⟩ := joinEntry_key hx
    rw [hcreated, hid]
    exact ⟨encodeTimeCursor_ne_empty _ _, timePosition_encode ((hdated k).dlqEntries d hd) d.id⟩
  · intro k cursor p hp
    simp only [listDLQ, hp, ok_bind, shown]
    rfl

/-- `ListWorkers` is a keyset listing. -/
theorem listWorkers_lists (collation : SortOrder String) (now limits : ℕ → Int) :
    Lists collation WorkerSummary.name (fun x => encodeWorkerCursor goCodec x.name)
      (fun k => shown collation Worker.name (fun w => w.scope == scope)
        (joinSession (now k) (hist k)) none (hist k).workers.rows)
      (fun k => boundPage defaultWorkerPageSize maxWorkerPageSize (limits k))
      (fun k cursor => listWorkers goCodec collation (now k) (hist k) scope cursor (limits k)) := by
  refine Lists.of_reads (position (decodeWorkerCursor goCodec)) (fun k => (hist k).workers.nodup)
    ?_ (fun k w x hx => (joinSession_key hx).1) (fun k => boundPage_pos (by decide) (by decide) _) rfl ?_ ?_
  · intro k x hx y hy hqx hqy h
    refine (hist k).workers.eq_of_clash hx hy (Bool.or_eq_true_iff.mpr (.inr ?_))
    refine sameKey_eq_true.mpr ⟨(x.scope, x.name), rfl, ?_⟩
    rw [Worker.nameKey, ← h, beq_iff_eq.mp hqx, beq_iff_eq.mp hqy]
  · intro k w hw x hx
    have hname : matchesName 127 w.name = true :=
      (Bool.and_eq_true_iff.mp ((hist k).workers.checked w hw)).2
    rw [(joinSession_key hx).1]
    exact ⟨rawURLEncode_ne_empty (ne_empty_of_matchesName hname), workerPosition_encode hname⟩
  · intro k cursor p hp
    simp only [listWorkers, hp, ok_bind, shown]
    rfl

end Listings

/-! ## The store keeps the keys -/

section Runs

variable {env : Env} {db db' : DB} {w w' : World} {l : Label}

/-- A registration renames nobody. -/
theorem register_workers {scope : String} {registration : Registration} {r : Session}
    (h : register env scope registration db = .ok (r, db')) {x : Worker}
    (hx : x ∈ db.workers.rows) : ∃ x' ∈ db'.workers.rows, x'.id = x.id ∧ x'.name = x.name := by
  simp only [register, bind_eq_ok, checked_eq_ok] at h
  obtain ⟨reg, -, ⟨wid, ws⟩, hup, hrest⟩ := h
  have hworkers : db'.workers = ws := by
    cases hread : readSessionForUpdate ws db.sessions reg.sessionID with
    | some existing =>
      simp only [hread, registerRead, bind_eq_ok, demand_eq_ok, pure_eq_ok, Prod.mk.injEq] at hrest
      obtain ⟨-, -, -, -, -, rfl⟩ := hrest
      rfl
    | none =>
      simp only [hread, registerRead, registerNew, bind_eq_ok, pure_eq_ok, Prod.mk.injEq] at hrest
      obtain ⟨-, -, -, -, -, rfl⟩ := hrest
      rfl
  rw [hworkers]
  exact upsertWorker_kept hup hx

theorem Call.workers_kept {call : Call} {ans : Answer} (h : call.run env db = .ok (ans, db'))
    {x : Worker} (hx : x ∈ db.workers.rows) :
    ∃ x' ∈ db'.workers.rows, x'.id = x.id ∧ x'.name = x.name := by
  cases Call.commit h with
  | unchanged call same => exact ⟨x, same ▸ hx, rfl, rfl⟩
  | registered scope registration reg wid valid only workers sessions =>
    obtain ⟨r, hr, -⟩ := answering_eq_ok.mp h
    exact register_workers hr hx
  | beat scope req s session scope_eq healthy moved | staled s staleAfter stale moved =>
    exact ⟨x, moved.workers ▸ hx, rfl, rfl⟩
  | wrote call id writes performs applied => exact ⟨x, applied.workers ▸ hx, rfl, rfl⟩

/-- Every row is still there, under the key it had. -/
structure KeysKept (db db' : DB) : Prop where
  jobs : ∀ j ∈ db.jobs.rows, ∃ j' ∈ db'.jobs.rows, j'.id = j.id ∧ j'.createdAt = j.createdAt
  dlqEntries : ∀ d ∈ db.dlqEntries.rows, d ∈ db'.dlqEntries.rows
  workers : ∀ x ∈ db.workers.rows, ∃ x' ∈ db'.workers.rows, x'.id = x.id ∧ x'.name = x.name

theorem KeysKept.refl (db : DB) : KeysKept db db :=
  ⟨fun j h => ⟨j, h, rfl, rfl⟩, fun _ h => h, fun x h => ⟨x, h, rfl, rfl⟩⟩

theorem KeysKept.trans {db db' db'' : DB} (h : KeysKept db db') (h' : KeysKept db' db'') :
    KeysKept db db'' where
  jobs j hj := by
    obtain ⟨k, hk, hid, hcreated⟩ := h.jobs j hj
    obtain ⟨m, hm, hid', hcreated'⟩ := h'.jobs k hk
    exact ⟨m, hm, hid'.trans hid, hcreated'.trans hcreated⟩
  dlqEntries d hd := h'.dlqEntries d (h.dlqEntries d hd)
  workers x hx := by
    obtain ⟨y, hy, hid, hname⟩ := h.workers x hx
    obtain ⟨z, hz, hid', hname'⟩ := h'.workers y hy
    exact ⟨z, hz, hid'.trans hid, hname'.trans hname⟩

theorem Step.keysKept (h : Step w l w') : KeysKept w.db w'.db := by
  have hworkers : ∀ x ∈ w.db.workers.rows, ∃ x' ∈ w'.db.workers.rows,
      x'.id = x.id ∧ x'.name = x.name := by
    cases h with
    | committed clock run => exact fun x hx => Call.workers_kept run hx
    | refused clock run => exact fun x hx => ⟨x, hx, rfl, rfl⟩
  cases h.effect with
  | unchanged same =>
    rw [same]
    exact .refl _
  | sessions only kept workers owned =>
    refine ⟨?_, ?_, hworkers⟩
    · rw [only.jobs]
      exact (KeysKept.refl _).jobs
    · rw [only.dlqEntries]
      exact fun _ hd => hd
  | move id writes lawful applied =>
    refine ⟨fun j hj => ?_, fun d hd => ?_, hworkers⟩
    · rw [applied.jobs]
      rcases RowWrite.kept_or_replaced hj with hkept | ⟨new, hw, hmem⟩
      · exact ⟨j, hkept, rfl, rfl⟩
      · have hdef := (lawful.job_replaced hw).2
        exact ⟨new, hmem, (Prod.mk.inj hdef).1, (lawful.birth_kept hw).2.1⟩
    · rw [applied.dlqEntries]
      exact List.mem_append_left _ hd

/-- **The store keeps the keys**, whatever is called between the pages. -/
theorem keyed_of_runs {worlds : ℕ → World}
    (hruns : ∀ k, ∃ trace, Execution (worlds k) trace (worlds (k + 1))) :
    Keyed fun k => (worlds k).db := by
  have hkept : ∀ k n, KeysKept (worlds k).db (worlds (k + n)).db := by
    intro k n
    induction n with
    | zero => exact .refl _
    | succ n ih =>
      obtain ⟨trace, hrun⟩ := hruns (k + n)
      exact ih.trans (hrun.related (P := fun _ => True) (R := fun v v' => KeysKept v.db v'.db)
        (fun v => .refl v.db) KeysKept.trans (fun _ _ => trivial) (fun _ hstep => hstep.keysKept)
        trivial)
  have horder : ∀ k m, KeysKept (worlds k).db (worlds m).db ∨
      KeysKept (worlds m).db (worlds k).db := by
    intro k m
    rcases Nat.le_total k m with hle | hle
    · exact .inl (Nat.add_sub_cancel' hle ▸ hkept k (m - k))
    · exact .inr (Nat.add_sub_cancel' hle ▸ hkept m (k - m))
  -- The later row of the same id is the one the earlier became.
  refine ⟨fun k m i hi j hj hid => ?_, fun k m d hd e he hid => ?_, fun k m x hx y hy hid => ?_⟩
  · rcases horder k m with h | h
    · obtain ⟨i', hi', hid', hcreated⟩ := h.jobs i hi
      rw [← hcreated, (worlds m).db.job_eq_of_id hi' hj (hid'.trans hid)]
    · obtain ⟨j', hj', hid', hcreated⟩ := h.jobs j hj
      rw [← hcreated, (worlds k).db.job_eq_of_id hj' hi (hid'.trans hid.symm)]
  · have heq : d = e := by
      have hclash : dlqEntries.clash d e = true :=
        Bool.or_eq_true_iff.mpr (.inl (sameKey_eq_true.mpr ⟨d.id, rfl, congrArg some hid.symm⟩))
      rcases horder k m with h | h
      · exact (worlds m).db.dlqEntries.eq_of_clash (h.dlqEntries d hd) he hclash
      · exact (worlds k).db.dlqEntries.eq_of_clash hd (h.dlqEntries e he) hclash
    rw [heq]
  · rcases horder k m with h | h
    · obtain ⟨x', hx', hid', hname⟩ := h.workers x hx
      rw [← hname, (worlds m).db.worker_eq_of_id hx' hy (hid'.trans hid)]
    · obtain ⟨y', hy', hid', hname⟩ := h.workers y hy
      rw [← hname, (worlds k).db.worker_eq_of_id hy' hx (hid'.trans hid.symm)]

end Runs

/-! ## Walks to the end -/

section Walks

variable {hist : ℕ → DB} {scope : String}

theorem listJobs_complete (hkeyed : Keyed hist) (hdated : ∀ k, Dated (hist k)) (filter : JobFilter)
    (hfilter : filter.validate = .ok ()) (limits : ℕ → Int) :
    Relational.Complete (fun k cursor => listJobs goCodec (hist k) scope filter cursor (limits k))
      JobSummary.id (fun x y => Newer x.createdAt x.id y.createdAt y.id)
      fun k x => ∃ j ∈ (hist k).jobs.rows, isListed scope filter j = true ∧ x = jobSummary j := by
  have hmem : ∀ k x, x ∈ shown newestFirst Job.keyset (isListed scope filter) shownJob none
      (hist k).jobs.rows ↔
        ∃ j ∈ (hist k).jobs.rows, isListed scope filter j = true ∧ x = jobSummary j := by
    intro k x
    simp only [mem_shown, shownJob, Option.some.injEq, eq_comm]
  refine ((listJobs_lists hdated filter hfilter limits).complete ?_).congr hmem ?_
  · intro k m x hx y hy hid
    obtain ⟨i, hi, -, rfl⟩ := (hmem k x).mp hx
    obtain ⟨j, hj, -, rfl⟩ := (hmem m y).mp hy
    have hcreated : i.createdAt = j.createdAt := hkeyed.jobs k m i hi j hj hid
    simp only [jobSummary, hcreated, show i.id = j.id from hid]
  · intro k m x y hx hy hlt
    obtain ⟨i, -, -, rfl⟩ := (hmem k x).mp hx
    obtain ⟨j, -, -, rfl⟩ := (hmem m y).mp hy
    exact newestFirst_lt.mp hlt

theorem listDLQ_complete (hkeyed : Keyed hist) (hdated : ∀ k, Dated (hist k)) (limits : ℕ → Int) :
    Relational.Complete (fun k cursor => listDLQ goCodec (hist k) scope cursor (limits k))
      DLQEntryView.id (fun x y => Newer x.createdAt x.id y.createdAt y.id)
      fun k x => ∃ d ∈ (hist k).dlqEntries.rows, d.scope = scope ∧
        joinEntry (hist k) d = some x := by
  have hmem : ∀ k x, x ∈ shown newestFirst DLQEntry.keyset (fun d => d.scope == scope)
      (joinEntry (hist k)) none (hist k).dlqEntries.rows ↔
        ∃ d ∈ (hist k).dlqEntries.rows, d.scope = scope ∧ joinEntry (hist k) d = some x := by
    intro k x
    simp only [mem_shown, beq_iff_eq]
  refine ((listDLQ_lists hdated limits).complete ?_).congr hmem ?_
  · intro k m x hx y hy hid
    obtain ⟨d, hd, -, hdx⟩ := (hmem k x).mp hx
    obtain ⟨e, he, -, hey⟩ := (hmem m y).mp hy
    obtain ⟨hcx, hix⟩ := joinEntry_key hdx
    obtain ⟨hcy, hiy⟩ := joinEntry_key hey
    have hcreated := hkeyed.dlqEntries k m d hd e he (hix.symm.trans (hid.trans hiy))
    simp only [hcx, hcy, hcreated, hid]
  · intro k m x y hx hy hlt
    obtain ⟨d, -, -, hdx⟩ := (hmem k x).mp hx
    obtain ⟨e, -, -, hey⟩ := (hmem m y).mp hy
    simp only [(joinEntry_key hdx).1, (joinEntry_key hey).1] at hlt ⊢
    exact newestFirst_lt.mp hlt

theorem listWorkers_complete (hkeyed : Keyed hist) (collation : SortOrder String)
    (now limits : ℕ → Int) :
    Relational.Complete
      (fun k cursor => listWorkers goCodec collation (now k) (hist k) scope cursor (limits k))
      WorkerSummary.id (fun x y => collation.lt x.name y.name = true)
      fun k x => ∃ w ∈ (hist k).workers.rows, w.scope = scope ∧
        joinSession (now k) (hist k) w = some x := by
  have hmem : ∀ k x, x ∈ shown collation Worker.name (fun w => w.scope == scope)
      (joinSession (now k) (hist k)) none (hist k).workers.rows ↔
        ∃ w ∈ (hist k).workers.rows, w.scope = scope ∧ joinSession (now k) (hist k) w = some x := by
    intro k x
    simp only [mem_shown, beq_iff_eq]
  refine ((listWorkers_lists collation now limits).complete ?_).congr hmem fun k m x y _ _ hlt => hlt
  intro k m x hx y hy hid
  obtain ⟨v, hv, -, hvx⟩ := (hmem k x).mp hx
  obtain ⟨w, hw, -, hwy⟩ := (hmem m y).mp hy
  obtain ⟨hnx, hix⟩ := joinSession_key hvx
  obtain ⟨hny, hiy⟩ := joinSession_key hwy
  rw [hnx, hny]
  exact hkeyed.workers k m v hv w hw (hix.symm.trans (hid.trans hiy))

end Walks

/-- A cursor that the page gives is read back as the position of its last row. -/
def Positioned {α β : Type} (decode : String → Except ReadError β) (place : α → β)
    (page : Page α) : Prop :=
  page.nextCursor ≠ "" →
    ∃ last, page.items.getLast? = some last ∧ decode page.nextCursor = .ok (place last)

theorem positioned_cutPage {α β : Type} {decode : String → Except ReadError β} {place : α → β}
    {token : α → String} {n : ℕ} (hn : 0 < n) {found : List α}
    (h : ∀ x ∈ found, decode (token x) = .ok (place x)) :
    Positioned decode place (cutPage n token found) := by
  intro hnext
  obtain ⟨last, hlast, hcursor⟩ := cutPage_nextCursor hn hnext
  have hmem : last ∈ found := mem_cutPage (List.mem_of_getLast? hlast)
  exact ⟨last, hlast, by rw [hcursor, h last hmem]⟩

section Issued

variable {db : DB} {scope : String} {cursor : String} {limit : Int}

theorem listJobs_positioned (hdated : Dated db) {filter : JobFilter} {page : Page JobSummary}
    (h : listJobs goCodec db scope filter cursor limit = .ok page) :
    Positioned (decodeTimeCursor goCodec) (fun x => (x.createdAt, x.id)) page := by
  simp only [listJobs, bind_eq_ok, pure_eq_ok] at h
  obtain ⟨-, -, p, -, rfl⟩ := h
  refine positioned_cutPage (boundPage_pos (by decide) (by decide) limit) fun x hx => ?_
  obtain ⟨j, hj, rfl⟩ := List.mem_map.mp hx
  exact decodeTimeCursor_encode (hdated.jobs j (mem_listing.mp (List.mem_of_mem_take hj)).1) j.id

theorem listDLQ_positioned (hdated : Dated db) {page : Page DLQEntryView}
    (h : listDLQ goCodec db scope cursor limit = .ok page) :
    Positioned (decodeTimeCursor goCodec) (fun x => (x.createdAt, x.id)) page := by
  simp only [listDLQ, bind_eq_ok, pure_eq_ok] at h
  obtain ⟨p, -, rfl⟩ := h
  refine positioned_cutPage (boundPage_pos (by decide) (by decide) limit) fun x hx => ?_
  obtain ⟨d, hd, hdx⟩ := List.mem_filterMap.mp (List.mem_of_mem_take hx)
  rw [(joinEntry_key hdx).1, (joinEntry_key hdx).2]
  exact decodeTimeCursor_encode (hdated.dlqEntries d (mem_listing.mp hd).1) d.id

theorem listWorkers_positioned {collation : SortOrder String} {now : Int}
    {page : Page WorkerSummary}
    (h : listWorkers goCodec collation now db scope cursor limit = .ok page) :
    Positioned (decodeWorkerCursor goCodec) WorkerSummary.name page := by
  simp only [listWorkers, bind_eq_ok, pure_eq_ok] at h
  obtain ⟨p, -, rfl⟩ := h
  refine positioned_cutPage (boundPage_pos (by decide) (by decide) limit) fun x hx => ?_
  obtain ⟨w, hw, hwx⟩ := List.mem_filterMap.mp (List.mem_of_mem_take hx)
  rw [(joinSession_key hwx).1]
  have hchecked := db.workers.checked w (mem_listing.mp hw).1
  exact decodeWorkerCursor_encode (Bool.and_eq_true_iff.mp hchecked).2

end Issued

/-- **Pagination is complete**, for jobs under any filter, dead letters and workers: page
by page, with any limits, while the database changes in between, in order, no row
twice, every row that stays exactly once, and to an end if no more rows come. The
store's own transactions leave every row its key. -/
theorem listings_complete {hist : ℕ → DB} (hkeyed : Keyed hist) (hdated : ∀ k, Dated (hist k))
    (scope : String) (limits : ℕ → Int) :
    (∀ filter : JobFilter, filter.validate = .ok () →
      Relational.Complete (fun k cursor => listJobs goCodec (hist k) scope filter cursor (limits k))
        JobSummary.id (fun x y => Newer x.createdAt x.id y.createdAt y.id)
        fun k x => ∃ j ∈ (hist k).jobs.rows, isListed scope filter j = true ∧ x = jobSummary j) ∧
    Relational.Complete (fun k cursor => listDLQ goCodec (hist k) scope cursor (limits k))
      DLQEntryView.id (fun x y => Newer x.createdAt x.id y.createdAt y.id)
      (fun k x => ∃ d ∈ (hist k).dlqEntries.rows, d.scope = scope ∧
        joinEntry (hist k) d = some x) ∧
    (∀ (collation : SortOrder String) (now : ℕ → Int),
      Relational.Complete
        (fun k cursor => listWorkers goCodec collation (now k) (hist k) scope cursor (limits k))
        WorkerSummary.id (fun x y => collation.lt x.name y.name = true)
        fun k x => ∃ w ∈ (hist k).workers.rows, w.scope = scope ∧
          joinSession (now k) (hist k) w = some x) ∧
    (∀ k cursor limit,
      (∀ filter page, listJobs goCodec (hist k) scope filter cursor limit = .ok page →
        Positioned (decodeTimeCursor goCodec) (fun x => (x.createdAt, x.id)) page) ∧
      (∀ page, listDLQ goCodec (hist k) scope cursor limit = .ok page →
        Positioned (decodeTimeCursor goCodec) (fun x => (x.createdAt, x.id)) page) ∧
      ∀ collation now page,
        listWorkers goCodec collation now (hist k) scope cursor limit = .ok page →
        Positioned (decodeWorkerCursor goCodec) WorkerSummary.name page) ∧
    ∀ worlds : ℕ → World, (∀ k, ∃ trace, Execution (worlds k) trace (worlds (k + 1))) →
      Keyed fun k => (worlds k).db := by
  refine ⟨fun filter hfilter => listJobs_complete hkeyed hdated filter hfilter limits,
    listDLQ_complete hkeyed hdated limits,
    fun collation now => listWorkers_complete hkeyed collation now limits, ?_,
    fun worlds hruns => keyed_of_runs hruns⟩
  intro k cursor limit
  exact ⟨fun filter page h => listJobs_positioned (hdated k) h,
    fun page h => listDLQ_positioned (hdated k) h, fun collation now page h => listWorkers_positioned h⟩

/-- A page of one job of the tenant. -/
theorem listJobs_one (db : DB) (cursor : String) :
    listJobs goCodec db "tenant" ⟨"", ""⟩ cursor 1
      = (timePosition goCodec cursor).bind fun p => .ok (cutPage 1
        (fun x => encodeTimeCursor goCodec x.createdAt x.id)
        (((listing newestFirst Job.keyset (isListed "tenant" ⟨"", ""⟩) p db.jobs.rows).take 2).map
          jobSummary)) := rfl

/-- A job that is submitted at the second instant. -/
def twin (id : UUID) : Job :=
  submittedJob (envAt 2 id (id + 1)) "tenant" ⟨"default", "email", "\x7b\x7d", 5, 3, 60, [], none⟩

/-- Two jobs are submitted at one instant. -/
def twins : World :=
  (quiet.exec ([(4, "first"), (2, "second")].map fun (id, key) => ⟨envAt 2 id (id + 1),
    .submit "tenant" key ⟨"default", "email", "\x7b\x7d", 5, 3, 60, [], none⟩ ⟨"", ""⟩⟩)).2

theorem twins_jobs : twins.db.jobs.rows = [twin 4, twin 2] := by decide +kernel

/-- Jobs of one instant, listed on pages of one: each page has one of them. -/
theorem listings_complete_sample :
    (Relational.Complete
      (fun _ cursor => listJobs goCodec twins.db "tenant" ⟨"", ""⟩ cursor 1)
      JobSummary.id (fun x y => Newer x.createdAt x.id y.createdAt y.id)
      fun _ x => ∃ j ∈ twins.db.jobs.rows,
        isListed "tenant" ⟨"", ""⟩ j = true ∧ x = jobSummary j) ∧
    ∃ first second, listJobs goCodec twins.db "tenant" ⟨"", ""⟩ "" 1 = .ok first ∧
      first.items = [jobSummary (twin 4)] ∧
      listJobs goCodec twins.db "tenant" ⟨"", ""⟩ first.nextCursor 1 = .ok second ∧
      second.items = [jobSummary (twin 2)] ∧ second.nextCursor = "" := by
  constructor
  · have hdated : (∀ j ∈ twins.db.jobs.rows, FourDigits (goTime j.createdAt)) ∧
        ∀ d ∈ twins.db.dlqEntries.rows, FourDigits (goTime d.createdAt) := by decide +kernel
    have hkeyed : Keyed fun _ : ℕ => twins.db := by
      exact @keyed_of_runs (fun _ => twins) fun _ => ⟨[], .nil _⟩
    exact (listings_complete hkeyed (fun _ => ⟨hdated.1, hdated.2⟩) "tenant" (fun _ => 1)).1 ⟨"", ""⟩ rfl
  · have hall : listing newestFirst Job.keyset (isListed "tenant" ⟨"", ""⟩) none [twin 4, twin 2]
        = [twin 4, twin 2] := listing_of_sorted (by decide +kernel) (by decide +kernel)
    have hrest : listing newestFirst Job.keyset (isListed "tenant" ⟨"", ""⟩) (some (2, 4))
        [twin 4, twin 2] = [twin 2] := listing_of_sorted (by decide +kernel) (by decide +kernel)
    refine ⟨⟨[jobSummary (twin 4)], encodeTimeCursor goCodec (goTime 2) 4⟩,
      ⟨[jobSummary (twin 2)], ""⟩, ?_, rfl, ?_, rfl, rfl⟩
    · rw [listJobs_one, twins_jobs, show timePosition goCodec "" = .ok none from rfl, Except.bind,
        hall]
      rfl
    · rw [listJobs_one, twins_jobs, timePosition_encode (by decide), Except.bind, hrest]
      rfl

/-! ## Beyond four digits -/

/-- A job of the first instant of the year 10000. -/
def lateJob (id : UUID) : Job where
  id := id
  scope := "tenant"
  queue := "default"
  jobType := "email"
  payload := "\x7b\x7d"
  status := .queued
  priority := 5
  maxAttempts := 3
  timeoutSeconds := 60
  requiredCapabilities := []
  scheduledAt := none
  availableAt := 253402300800000000
  cancelRequestedAt := none
  replayedFromJobID := none
  notificationGeneration := 0
  lastNotificationAt := none
  createdAt := 253402300800000000
  updatedAt := 253402300800000000

/-- Two such jobs, and a worker that has no session. -/
def lateDB : DB :=
  { quietDB with
    jobs := ⟨[lateJob 2, lateJob 1], by decide +kernel, by decide +kernel⟩
    workers := ⟨[⟨1, "tenant", "worker", 0, 0⟩], by decide +kernel, by decide +kernel⟩ }

theorem lateDB_listing :
    listing newestFirst Job.keyset (isListed "tenant" ⟨"", ""⟩) none lateDB.jobs.rows
      = [lateJob 2, lateJob 1] :=
  listing_of_sorted (by decide +kernel) (by decide +kernel)

/-- The cursor of such a job is written and not read back. -/
theorem decodeTimeCursor_late :
    decodeTimeCursor goCodec (encodeTimeCursor goCodec (goTime 253402300800000000) 2)
      = .error .invalidCursor := by
  have hbar : '|' ∉ (formatStamp (goTime 253402300800000000)).toList := by decide +kernel
  have hparse : parseStamp (formatStamp (goTime 253402300800000000)) = none := by decide +kernel
  simp only [decodeTimeCursor, encodeTimeCursor, goCodec, rawURLDecode_encode, orFail, Option.elim,
    ok_bind, cutBar_append hbar, hparse, error_bind]

/-- **What the listings leave out.** The walk over the two jobs stops after one of them
with an invalid cursor, and the worker is on no page. -/
theorem listings_incomplete :
    (∃ page, listJobs goCodec lateDB "tenant" ⟨"", ""⟩ "" 1 = .ok page ∧
      page.items.map JobSummary.id = [2] ∧ page.nextCursor ≠ "" ∧
      listJobs goCodec lateDB "tenant" ⟨"", ""⟩ page.nextCursor 1 = .error .invalidCursor) ∧
    ∀ collation now limit, listWorkers goCodec collation now lateDB "tenant" "" limit
      = .ok ⟨[], ""⟩ := by
  constructor
  · refine ⟨⟨[jobSummary (lateJob 2)], encodeTimeCursor goCodec (goTime 253402300800000000) 2⟩, ?_,
      rfl, encodeTimeCursor_ne_empty _ _, ?_⟩
    · rw [listJobs_one, show timePosition goCodec "" = .ok none from rfl, Except.bind,
        lateDB_listing]
      rfl
    · rw [listJobs_one, timePosition, position, if_neg (encodeTimeCursor_ne_empty _ _),
        decodeTimeCursor_late]
      rfl
  · intro collation now limit
    have hjoin : ∀ w, joinSession now lateDB w = none := by
      intro w
      have hsessions : lateDB.sessions.rows = [] := rfl
      simp [joinSession, hsessions, orderBy]
    have hnone : ∀ rows : List Worker, rows.filterMap (joinSession now lateDB) = [] :=
      fun rows => List.filterMap_eq_nil_iff.mpr fun w _ => hjoin w
    simp only [listWorkers, position, if_true, hnone, List.take_nil]
    rfl

end TaskForge
