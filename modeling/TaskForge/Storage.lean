/-
What the tables of a submission can hold, against what the validators let through.

`Normalize` and `ValidateIdempotencyKey` come first, the `INSERT`s into `jobs` and
`idempotency_records` after them, and PostgreSQL has its own idea of a value: `text`
is UTF-8 without NUL, `jsonb` takes no U+0000 in a string and no number beyond
`numeric`, and the numbers and instants have ranges. The validators imply every
`CHECK` and every range. They do not imply the two things that are about characters:
`ValidateIdempotencyKey` ranges over a key's runes, where a byte that is no character
counts as U+FFFD and passes, and `CanonicalJSON` keeps a U+0000 and any literal.
-/
import TaskForge.Admission
import TaskForge.Normalize
import TaskForge.Utf8

open Relational Fallible Json

namespace TaskForge

/-! ## Column types -/

/-- `text`, from the bytes a driver sends. -/
def textColumn (bytes : List UInt8) : Option String := (Utf8.text bytes).filter storable

/-- `smallint` -/
def isSmallint (n : Int) : Bool := between (-32768) 32767 n

/-- `integer` -/
def isInteger (n : Int) : Bool := between (-2147483648) 2147483647 n

/-- `timestamptz`, from 4714 BC to 294276 AD, in microseconds. -/
def isTimestamp (t : Int) : Bool := between (-210866803200000000) 9224318015999999999 t

/-- The document of a canonical text. -/
def documentOf (payload : String) : Option Value :=
  (read maxNestingDepth payload.toList).map Prod.fst

/-- The columns of `jobs` that a submission fills, at their types. The ids, the status
and the two timestamps that default to `now()` are the server's own values. -/
def Job.typed (J : Jsonb) (j : Job) : Bool :=
  storable j.scope && storable j.queue && storable j.jobType &&
    (documentOf j.payload).any J.accepts && isSmallint j.priority && isSmallint j.maxAttempts &&
    isInteger j.timeoutSeconds && j.requiredCapabilities.all storable &&
    j.scheduledAt.all isTimestamp && isTimestamp j.availableAt &&
    j.lastNotificationAt.all isTimestamp

/-! ## Validation and submission, on a key of bytes -/

/-- `jobs.ValidateIdempotencyKey`, on the bytes of the header. -/
def validateKeyBytes (key : List UInt8) : List FieldError :=
  if (Utf8.runes key).all isSpace then [⟨"Idempotency-Key", "header is required"⟩]
  else if 255 < key.length then [⟨"Idempotency-Key", "must be at most 255 bytes"⟩]
  else mustHold (!(Utf8.runes key).any fun r => decide (r.toNat < 0x20) || r.toNat == 0x7f)
    "Idempotency-Key" "must not contain control characters"

/-- The record's `INSERT`, if its key is a text. -/
def recordRow (env : Env) (scope : String) (key : List UInt8) (req : NormalizedRequest) :
    Option IdempotencyRecord :=
  (textColumn key).map fun k => ⟨scope, k, env.fingerprint req, env.id₁, env.clock.start⟩

/-- Both `INSERT`s satisfy the types of their columns and the checks of their tables. -/
def insertsAccepted (J : Jsonb) (env : Env) (scope : String) (key : List UInt8)
    (req : NormalizedRequest) : Bool :=
  (submittedJob env scope req).typed J && jobs.check (submittedJob env scope req) &&
    (recordRow env scope key req).any idempotencyRecords.check

/-- `Store.Submit` where values are typed before rows are checked. -/
def submitBytes (J : Jsonb) (env : Env) (scope : String) (key : List UInt8)
    (req : NormalizedRequest) (trace : TraceContext) (db : DB) : Tx (SubmitResult × DB) := do
  demand (db.queues.rows.any fun q => q.name == req.queue) .unknownQueue
  ensure ((submittedJob env scope req).typed J) ⟨.failed "insert job", .schema .jobs .check⟩
  match textColumn key with
  | some k => submit env scope k req trace db
  | none => do
    let _ ← insertRow .jobs db.jobs (submittedJob env scope req) (reported "insert job")
    .error ⟨.failed "insert idempotency record", .schema .idempotencyRecords .check⟩

/-- The submission failed because `jobs` or `idempotency_records` refused its row. -/
def refusedByStorage {α : Type} (x : Tx α) : Prop :=
  ∃ f v, x = .error f ∧ (f.cause = .schema .jobs v ∨ f.cause = .schema .idempotencyRecords v)

/-! ## Keys -/

theorem trimSpace_eq_empty {s : String} : trimSpace s = "" ↔ s.toList.all isSpace = true := by
  unfold trimSpace
  rw [show ("" : String) = String.ofList [] from rfl, String.ofList_inj, List.reverse_eq_nil_iff,
    List.dropWhile_eq_nil_iff, List.all_eq_true]
  constructor
  · intro h
    by_contra hall
    push Not at hall
    -- The first character that is no space would be left.
    cases hdrop : s.toList.dropWhile isSpace with
    | nil => exact absurd (List.dropWhile_eq_nil_iff.mp hdrop) (by push Not; exact hall)
    | cons c r =>
      have hc : isSpace c = true := h c (by rw [hdrop]; exact List.mem_reverse.mpr List.mem_cons_self)
      have hhead := List.head_dropWhile_not isSpace (l := s.toList) (by rw [hdrop]; simp)
      simp only [hdrop, List.head_cons] at hhead
      rw [hc] at hhead
      cases hhead
  · intro h c hc
    have hnil : s.toList.dropWhile isSpace = [] := List.dropWhile_eq_nil_iff.mpr h
    rw [hnil] at hc
    cases hc

theorem octetLength_eq (s : String) : (Utf8.encode s.toList).length = octetLength s := by
  have hbytes : (Utf8.encode s.toList).toByteArray = s.toByteArray :=
    (Utf8.toByteArray_encode s.toList).trans String.utf8Encode_toList
  simpa [octetLength] using congrArg ByteArray.size hbytes

/-- On a text the two readings of the validator agree. -/
theorem validateKeyBytes_encode (s : String) :
    validateKeyBytes (Utf8.encode s.toList) = validateIdempotencyKey s := by
  unfold validateKeyBytes validateIdempotencyKey
  rw [Utf8.runes_encode, octetLength_eq]
  by_cases hblank : trimSpace s = ""
  · rw [if_pos (trimSpace_eq_empty.mp hblank), if_pos hblank]
  · rw [if_neg (fun h => hblank (trimSpace_eq_empty.mpr h)), if_neg hblank]

/-- An accepted key is a `text` exactly when its bytes are UTF-8. -/
theorem textColumn_of_accepted {key : List UInt8} (h : validateKeyBytes key = []) :
    textColumn key = Utf8.text key ∧
      ∀ k, textColumn key = some k → lengthBetween 1 255 k = true := by
  have hfits : ∀ k, Utf8.text key = some k → lengthBetween 1 255 k = true := by
    intro k hk
    rw [Utf8.text_eq_some.mp hk, validateKeyBytes_encode] at h
    exact validateIdempotencyKey_eq_nil h
  have hsame : textColumn key = Utf8.text key := by
    unfold textColumn
    cases hk : Utf8.text key with
    | none => rfl
    | some k =>
      have hstorable : storable k = true := by
        have := hfits k hk
        simp only [lengthBetween, Bool.and_eq_true] at this
        exact this.1.1
      rw [Option.filter_some, if_pos hstorable]
  exact ⟨hsame, fun k hk => hfits k (hsame ▸ hk)⟩

/-! ## Accepted requests -/

section Accepted

variable {explain : Text → String} {r : SubmitRequest} {req : NormalizedRequest} {env : Env}
  {scope : String}

theorem CanonicalObject.documentOf {payload : String} {members : List (Text × Value)}
    (h : CanonicalObject payload.toList members) :
    TaskForge.documentOf payload = some (.object members) := by
  have hread := read_encode (goStyle_lawful false) h.within (r := [])
    (by rintro ⟨literal, hl⟩; cases hl)
  rw [List.append_nil, ← h.text] at hread
  rw [TaskForge.documentOf, hread, Option.map_some]

/-- The instant of an accepted request is a timestamp. -/
theorem Normalized.timestamp (h : Normalized explain r req) {t : Int}
    (ht : req.scheduledAt = some t) : isTimestamp (storeTime t) = true := by
  obtain ⟨s, -, hparse⟩ := normalizeSchedule_eq_ok (h.schedule.trans (congrArg Except.ok ht))
  have hbounds := Calendar.parseRFC3339_bounds hparse
  unfold isTimestamp between storeTime
  rw [Bool.and_eq_true, decide_eq_true_eq, decide_eq_true_eq]
  omega

/-- The row of an accepted request passes the checks of `jobs`. -/
theorem Normalized.job_checked (h : Normalized explain r req) (hscope : scopeBounded scope = true) :
    jobs.check (submittedJob env scope req) = true := by
  obtain ⟨members, hcanonical⟩ := normalizePayload_eq_ok h.payload
  have hpriority := h.priority
  have hattempts := h.maxAttempts
  have htimeout := h.timeoutSeconds
  simp only [between, Bool.and_eq_true, decide_eq_true_eq] at hattempts htimeout
  refine Job.check_eq_true.mpr
    { scope := hscope
      jobType := h.type_
      payload := ?_
      priority := hpriority
      maxAttempts := hattempts
      timeoutSeconds := htimeout
      capabilities := ?_
      replay := rfl
      pending := ?_
      cancellation := ?_
      generation := ?_ }
  · show (req.payload.toList.head? == some '\x7b') = true
    rw [hcanonical.text]
    rfl
  · exact List.all_eq_true.mpr fun c hc => storable_of_matchesName (h.capabilities c hc)
  · -- A pending job is a delayed one, and only a schedule delays it.
    unfold Job.pendingRequiresSchedule submittedJob isDelayed
    cases req.scheduledAt <;> simp
  · by_cases hd : isDelayed env.clock.s₀ req = true
    · simp [Job.cancellationConsistent, submittedJob, hd]
    · simp [Job.cancellationConsistent, submittedJob, hd]
  · by_cases hd : isDelayed env.clock.s₀ req = true
    · simp [Job.notificationGenerationConsistent, submittedJob, hd]
    · simp [Job.notificationGenerationConsistent, submittedJob, hd]

theorem storable_of_scopeBounded (h : scopeBounded scope = true) : storable scope = true := by
  simp only [scopeBounded, lengthBetween, Bool.and_eq_true] at h
  exact h.1.1

/-- Its values have the types of their columns, the payload apart. -/
theorem Normalized.job_typed (J : Jsonb) (h : Normalized explain r req)
    (hscope : scopeBounded scope = true) (hclock : isTimestamp env.clock.s₀ = true) :
    (submittedJob env scope req).typed J = (documentOf req.payload).any J.accepts := by
  have hstorable := storable_of_scopeBounded hscope
  have hpriority : isSmallint req.priority = true := by
    have := h.priority
    simp only [isSmallint, between, Bool.and_eq_true, decide_eq_true_eq] at this ⊢
    omega
  have hattempts : isSmallint req.maxAttempts = true := by
    have := h.maxAttempts
    simp only [isSmallint, between, Bool.and_eq_true, decide_eq_true_eq] at this ⊢
    omega
  have htimeout : isInteger req.timeoutSeconds = true := by
    have := h.timeoutSeconds
    simp only [isInteger, between, Bool.and_eq_true, decide_eq_true_eq] at this ⊢
    omega
  have hcapabilities : req.requiredCapabilities.all storable = true :=
    List.all_eq_true.mpr fun c hc => storable_of_matchesName (h.capabilities c hc)
  have hscheduled : (req.scheduledAt.map storeTime).all isTimestamp = true := by
    cases hs : req.scheduledAt with
    | none => rfl
    | some t => exact h.timestamp hs
  have havailable : isTimestamp (submittedJob env scope req).availableAt = true := by
    simp only [submittedJob]
    split_ifs with hd
    · cases hs : req.scheduledAt with
      | none => simp [isDelayed, hs] at hd
      | some t => exact h.timestamp hs
    · exact hclock
  have hnotified : (submittedJob env scope req).lastNotificationAt.all isTimestamp = true := by
    simp only [submittedJob]
    split_ifs with hd
    · rfl
    · exact hclock
  have hqueue := storable_of_matchesName h.queue
  have htype := storable_of_matchesName h.type_
  unfold Job.typed
  rw [havailable, hnotified]
  simp [submittedJob, hstorable, hqueue, htype, hpriority, hattempts, htimeout, hcapabilities,
    hscheduled]

theorem recordRow_checked (hscope : scopeBounded scope = true)
    (hfingerprint : matchesHex64 (env.fingerprint req) = true) {key : List UInt8}
    (hkey : validateKeyBytes key = []) :
    (recordRow env scope key req).any idempotencyRecords.check = (Utf8.text key).isSome := by
  obtain ⟨hsame, hfits⟩ := textColumn_of_accepted hkey
  have hstorable := storable_of_scopeBounded hscope
  unfold recordRow
  rw [← hsame]
  cases hk : textColumn key with
  | none => rfl
  | some k => simp [idempotencyRecords, hstorable, hfits k hk, hfingerprint]

theorem insertsAccepted_iff (J : Jsonb) (h : Normalized explain r req)
    (hscope : scopeBounded scope = true) (hclock : isTimestamp env.clock.s₀ = true)
    (hfingerprint : matchesHex64 (env.fingerprint req) = true) {key : List UInt8}
    (hkey : validateKeyBytes key = []) :
    insertsAccepted J env scope key req = true ↔
      (Utf8.text key).isSome = true ∧ (documentOf req.payload).any J.accepts = true := by
  unfold insertsAccepted
  rw [h.job_typed J hscope hclock, h.job_checked hscope,
    recordRow_checked hscope hfingerprint hkey, Bool.and_true, Bool.and_eq_true]
  exact and_comm

/-- No job has the id the submission drew. -/
def JobIDFree (env : Env) (db : DB) : Prop := ∀ j ∈ db.jobs.rows, j.id ≠ env.id₁

theorem insertJob_ok {db : DB} (hcheck : jobs.check (submittedJob env scope req) = true)
    (hfree : JobIDFree env db) :
    ∃ t, insertRow .jobs db.jobs (submittedJob env scope req) (reported "insert job") = .ok t := by
  obtain ⟨t, ht⟩ := db.jobs.insert_ok hcheck fun x hx => sameKey_eq_false.mpr fun k hk hxk =>
    hfree x hx (Option.some.inj (hxk.trans hk.symm))
  exact ⟨t, by rw [insertRow, ht]; rfl⟩

/-- Where both rows pass their checks, neither table refuses the submission. -/
theorem submit_stored {db : DB} {key : String} {trace : TraceContext}
    (hcheck : jobs.check (submittedJob env scope req) = true)
    (hrecord : idempotencyRecords.check
      ⟨scope, key, env.fingerprint req, env.id₁, env.clock.start⟩ = true)
    (hfree : JobIDFree env db) : ¬ refusedByStorage (submit env scope key req trace db) := by
  rintro ⟨f, v, hsubmit, hcause⟩
  have hforced : f.cause ≠ .check := by
    rcases hcause with h | h
    · rw [h]; exact Cause.noConfusion
    · rw [h]; exact Cause.noConfusion
  obtain ⟨t, ht⟩ := insertJob_ok hcheck hfree
  simp only [submit, resolveExisting, getByID, bind_eq_error, demand_forced hforced,
    fetch_forced hforced, demand_eq_ok, List.any_eq_true, beq_iff_eq, ite_eq_error, pure_ne_error,
    false_or, and_false, exists_false, or_false, Bool.and_eq_true] at hsubmit
  obtain ⟨-, -, hjob | ⟨t', -, hfresh, hkey | ⟨t'', -, hevent⟩⟩⟩ := hsubmit
  · rw [ht] at hjob
    cases hjob
  · -- The key is not in use, so nothing clashes with the record.
    obtain ⟨x, hx, hclash⟩ := (insertRow_eq_error hkey).2 hrecord
    have hidentity := Option.some.inj (eq_of_sameKey
      (show sameKey IdempotencyRecord.identity x _ = true from hclash))
    exact hfresh ⟨x, hx, congrArg Prod.fst hidentity, congrArg Prod.snd hidentity⟩
  · simp only [notifySubmitted_submittedJob, insertWorkAvailableTx, ite_eq_error, pure_ne_error,
      and_false, false_or, bind_eq_error, demand_forced hforced] at hevent
    obtain ⟨-, -, -, hinsert⟩ := hevent
    obtain ⟨v', hv'⟩ := (insertRow_eq_error hinsert).1
    rcases hcause with h | h
    · rw [h] at hv'; cases hv'
    · rw [h] at hv'; cases hv'

theorem submitBytes_refused_iff (J : Jsonb) (h : Normalized explain r req)
    (hscope : scopeBounded scope = true) (hclock : isTimestamp env.clock.s₀ = true)
    (hfingerprint : matchesHex64 (env.fingerprint req) = true) {key : List UInt8}
    (hkey : validateKeyBytes key = []) {db : DB} (hqueue : ∃ q ∈ db.queues.rows, q.name = req.queue)
    (hfree : JobIDFree env db) (trace : TraceContext) :
    refusedByStorage (submitBytes J env scope key req trace db) ↔
      ¬ ((Utf8.text key).isSome = true ∧ (documentOf req.payload).any J.accepts = true) := by
  have hknown : (db.queues.rows.any fun q => q.name == req.queue) = true := by
    simpa only [List.any_eq_true, beq_iff_eq] using hqueue
  have hchecked : jobs.check (submittedJob env scope req) = true := h.job_checked hscope
  obtain ⟨hsame, -⟩ := textColumn_of_accepted hkey
  unfold submitBytes
  rw [hknown, h.job_typed J hscope hclock, hsame]
  by_cases haccepts : (documentOf req.payload).any J.accepts = true
  · rw [haccepts]
    cases hk : Utf8.text key with
    | none =>
      obtain ⟨t, ht⟩ := insertJob_ok hchecked hfree
      rw [ht]
      exact iff_of_true ⟨_, .check, rfl, .inr rfl⟩ (by rintro ⟨h, -⟩; cases h)
    | some k =>
      have hrecord : (recordRow env scope key req).any idempotencyRecords.check = _ :=
        recordRow_checked hscope hfingerprint hkey
      rw [recordRow, hsame, hk] at hrecord
      exact iff_of_false (submit_stored hchecked hrecord hfree) (not_not.mpr ⟨rfl, rfl⟩)
  · rw [Bool.not_eq_true _ |>.mp haccepts]
    exact iff_of_true ⟨_, .check, rfl, .inl rfl⟩ (by rintro ⟨-, h⟩; cases h)

/-- **What storage asks beyond validation.** A key `ValidateIdempotencyKey` accepts and
a request `Normalize` accepts satisfy every type and check of the two tables, and are
never refused by them, exactly when the key is UTF-8 and `jsonb` takes the payload. -/
theorem accepted_submission_stored_iff (J : Jsonb) (hreq : r.normalize explain = .ok req)
    {key : List UInt8} (hkey : validateKeyBytes key = []) (hscope : scopeBounded scope = true)
    (hclock : isTimestamp env.clock.s₀ = true)
    (hfingerprint : matchesHex64 (env.fingerprint req) = true) :
    (insertsAccepted J env scope key req = true ↔
      (Utf8.text key).isSome = true ∧ (documentOf req.payload).any J.accepts = true) ∧
    ∀ (trace : TraceContext) (db : DB), (∃ q ∈ db.queues.rows, q.name = req.queue) →
      JobIDFree env db →
      (refusedByStorage (submitBytes J env scope key req trace db) ↔
        ¬ ((Utf8.text key).isSome = true ∧ (documentOf req.payload).any J.accepts = true)) := by
  have h := normalize_eq_ok hreq
  refine ⟨insertsAccepted_iff J h hscope hclock hfingerprint hkey, fun trace db hqueue hfree => ?_⟩
  exact submitBytes_refused_iff J h hscope hclock hfingerprint hkey hqueue hfree trace

end Accepted

/-! ## On the quiet database -/

/-- Numbers of any size, written back as they were. -/
def plainJsonb : Jsonb := ⟨some, fun h h' => by cases h'; exact h⟩

/-- What every column refuses, this one refuses too: U+0000. -/
theorem plainJsonb_accepts {J : Jsonb} {v : Value} (h : J.accepts v = true) :
    plainJsonb.accepts v = true := by
  rw [Jsonb.accepts, List.all_eq_true] at h ⊢
  intro node hnode
  have hnode := h node hnode
  cases node with
  | number literal => rfl
  | _ => exact hnode

theorem any_plainJsonb {J : Jsonb} {document : Option Value} (h : document.any J.accepts = true) :
    document.any plainJsonb.accepts = true := by
  cases document with
  | none => exact h
  | some v => exact plainJsonb_accepts h

/-- A request for the default queue, by its payload. -/
def sampleSubmit (payload : String) : SubmitRequest :=
  ⟨"default", "email", payload.toList, none, none, none, none, []⟩

/-- What it normalizes to. -/
def sampleNormal (payload : String) : NormalizedRequest :=
  ⟨"default", "email", payload, 50, 3, 300, [], none⟩

theorem accepted_submission_stored_plain :
    refusedByStorage (submitBytes plainJsonb (envAt 1 2 3) "tenant" [0x6b]
        (sampleNormal "\x7b\x7d") ⟨"", ""⟩ quietDB) ↔
      ¬ ((Utf8.text [0x6b]).isSome = true ∧
        (documentOf (sampleNormal "\x7b\x7d").payload).any plainJsonb.accepts = true) := by
  have hreq : (sampleSubmit "\x7b\x7d").normalize (fun _ => "") = .ok (sampleNormal "\x7b\x7d") := by
    decide +kernel
  refine (accepted_submission_stored_iff plainJsonb hreq ?_ ?_ ?_ ?_).2 _ _ ?_ ?_
  · decide +kernel
  · decide +kernel
  · decide +kernel
  · decide +kernel
  · decide +kernel
  · exact fun j hj => absurd hj List.not_mem_nil

/-- A payload with U+0000 in a string, spelled as an escape. -/
def nulPayload : String := "\x7b\x22a\x22:\x22\x5cu0000\x22\x7d"

/-- Such a request, submitted to the quiet database. -/
theorem sample_refused_iff (J : Jsonb) {payload : String} {key : List UInt8}
    (hreq : (sampleSubmit payload).normalize (fun _ => "") = .ok (sampleNormal payload))
    (hkey : validateKeyBytes key = []) :
    refusedByStorage (submitBytes J (envAt 1 2 3) "tenant" key (sampleNormal payload)
        ⟨"", ""⟩ quietDB) ↔
      ¬ ((Utf8.text key).isSome = true ∧ (documentOf payload).any J.accepts = true) := by
  have hnormal := normalize_eq_ok hreq
  refine submitBytes_refused_iff J hnormal ?_ ?_ ?_ hkey ?_ ?_ ⟨"", ""⟩
  · decide +kernel
  · decide
  · show matchesHex64 "0123456789abcdef0123456789abcdef0123456789abcdef0123456789abcdef" = true
    decide +kernel
  · show ∃ q ∈ quietDB.queues.rows, q.name = "default"
    decide
  · exact fun j hj => absurd hj List.not_mem_nil

/-- The payload is a JSON object and is accepted, and `jsonb` refuses it; the key is
the one byte 0xff, passes as U+FFFD, and `text` refuses it. -/
theorem accepted_submission_refused :
    ((sampleSubmit nulPayload).normalize (fun _ => "") = .ok (sampleNormal nulPayload) ∧
      validateKeyBytes [0x6b] = []) ∧
    ((sampleSubmit "\x7b\x7d").normalize (fun _ => "") = .ok (sampleNormal "\x7b\x7d") ∧
      validateKeyBytes [0xff] = []) ∧
    ∀ J : Jsonb,
      refusedByStorage (submitBytes J (envAt 1 2 3) "tenant" [0x6b] (sampleNormal nulPayload)
        ⟨"", ""⟩ quietDB) ∧
      refusedByStorage (submitBytes J (envAt 1 2 3) "tenant" [0xff] (sampleNormal "\x7b\x7d")
        ⟨"", ""⟩ quietDB) := by
  have hnul : (sampleSubmit nulPayload).normalize (fun _ => "") = .ok (sampleNormal nulPayload) := by
    decide +kernel
  have hplain : (sampleSubmit "\x7b\x7d").normalize (fun _ => "") =
      .ok (sampleNormal "\x7b\x7d") := by decide +kernel
  have hk : validateKeyBytes [0x6b] = [] := by decide +kernel
  have hff : validateKeyBytes [0xff] = [] := by decide +kernel
  refine ⟨⟨hnul, hk⟩, ⟨hplain, hff⟩, fun J => ⟨(sample_refused_iff J hnul hk).mpr ?_,
    (sample_refused_iff J hplain hff).mpr ?_⟩⟩
  · rintro ⟨-, haccepts⟩
    have hnever : (documentOf nulPayload).any plainJsonb.accepts = false := by decide +kernel
    exact Bool.false_ne_true (hnever.symm.trans (any_plainJsonb haccepts))
  · rintro ⟨htext, -⟩
    exact absurd htext (by decide +kernel)

end TaskForge
