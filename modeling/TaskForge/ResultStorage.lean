/-
What storage takes of a result, and what is served of it.

A result is described twice. `results.Result.Validate` says in Go which reports are
accepted, on empty strings and nil slices; migration 0016 says in SQL which rows are,
on NULLs. The two agree on the location, on which fields go with it and on the size,
and differ on the checksum of an object, of which Go asks only that it is not empty
(`accepted_result_checked_iff`).

The bytes a handler produced go one of two ways. Inline, they are compacted into the
success report, become a `jsonb` document, are written back in its spelling and
compacted again into the response. In the object store they are kept as they are, and
compacted into the response. `results_served_iff` says when either gives them back.
-/
import TaskForge.Json.Compaction
import TaskForge.Rendering

open Relational Fallible Json Runs

namespace TaskForge

/-! ## Accepted results against the schema -/

/-- What storage asks of a report beyond its acceptance: of an object the checksum its
column wants, of the names that they are texts, and of an inline body that it is a
document `jsonb` takes. -/
structure ResultPayload.Storable (p : ResultPayload) : Prop where
  checksum : p.location = "object" → matchesHex64 p.checksumSHA256 = true
  bucket : storable p.objectBucket = true
  key : storable p.objectKey = true
  inline : ∀ body, p.inlineBody = some body → jsonbTakes body.toList = true

section Accepted

variable {payload : ResultPayload} {ref : ResultRef} {scope : String}

theorem parseResultPayload_eq_ok :
    parseResultPayload (some payload) = .ok (some ref) ↔
      ref = ⟨.ofWord payload.location, payload.inlineBody, payload.objectBucket,
        payload.objectKey, payload.sizeBytes, payload.checksumSHA256⟩ ∧ ref.problem = none := by
  unfold parseResultPayload
  dsimp only
  constructor
  · intro h
    split at h
    · cases h
    · rename_i hproblem
      cases h
      exact ⟨rfl, hproblem⟩
  · rintro ⟨rfl, hproblem⟩
    rw [hproblem]

theorem digested_iff (haccepted : parseResultPayload (some payload) = .ok (some ref)) :
    ref.digested = true ↔
      (payload.location = "object" → matchesHex64 payload.checksumSHA256 = true) := by
  have hlocation : Location.ofWord payload.location = .object ↔ payload.location = "object" := by
    unfold Location.ofWord
    split_ifs with hinline hobject
    · rw [hinline]
      decide
    · exact iff_of_true rfl hobject
    · exact iff_of_false (by rintro ⟨⟩) hobject
  rw [(parseResultPayload_eq_ok.mp haccepted).1, ResultRef.digested, Bool.or_eq_true, bne_iff_ne,
    ← imp_iff_not_or, hlocation]

/-- The row of an accepted report passes constraints and types exactly if it is storable. -/
theorem checked_iff (haccepted : parseResultPayload (some payload) = .ok (some ref)) (start : Int)
    (jobID attemptID : UUID) (hscope : scopeBounded scope = true) :
    (resultRow start scope jobID attemptID ref).check = true ↔ payload.Storable := by
  obtain ⟨hwire, hvalid⟩ := parseResultPayload_eq_ok.mp haccepted
  have htaken : ref.taken = true ↔
      ∀ body, payload.inlineBody = some body → jsonbTakes body.toList = true := by
    rw [hwire, ResultRef.taken, Option.all_eq_true]
  have hnames : ref.bucket = payload.objectBucket ∧ ref.key = payload.objectKey := by
    rw [hwire]
    exact ⟨rfl, rfl⟩
  rw [resultRow_check start jobID attemptID hvalid hscope, hnames.1, hnames.2, Bool.and_eq_true,
    Bool.and_eq_true, Bool.and_eq_true, digested_iff haccepted, htaken]
  constructor
  · rintro ⟨⟨⟨hchecksum, hinline⟩, hbucket⟩, hkey⟩
    exact ⟨hchecksum, hbucket, hkey, hinline⟩
  · intro h
    exact ⟨⟨⟨h.checksum, h.inline⟩, h.bucket⟩, h.key⟩

end Accepted

/-! ### The report that carries it -/

section Reported

variable {w : World} {scope : String} {fence : Fence} {ref : ResultRef}

/-- A success report whose row passes its check is refused by no table. -/
theorem Sound.succeed_not_refused (hsound : Sound w) {env : Env} (hclock : w.clock ≤ env.clock.s₀)
    {f : Failure} (h : succeed env scope fence (some ref) w.db = .error f)
    (hcheck : ∀ jobID attemptID, scopeBounded scope = true →
      (resultRow env.clock.start scope jobID attemptID ref).check = true) (t : TableName)
    (v : Violation) : f.cause ≠ .schema t v := by
  intro hcause
  obtain ⟨s, j, a, m, hA, ready, hrefused⟩ := succeed_forced (by rw [hcause]; rintro ⟨⟩) h
  have hscope : scopeBounded scope = true := hA.job_scope ▸ (w.db.job_checked hA.job_mem).scope
  obtain ⟨past, pastLeases, hrun⟩ :=
    hA.holds.executing (hsound.cases j.id) (by rw [ready.attempt]; rfl)
  have hadmitted : (succeedWrites env scope env.clock.s₀ (some ref) j a m).Admitted w.db := by
    refine succeed_admitted hA.holds hrun.open_ hclock hrun.results ready fun r hr => ?_
    obtain rfl := List.mem_singleton.mp hr
    exact hcheck j.id a.id hscope
  obtain ⟨r, hr, -⟩ := hrefused.of_admitted hadmitted rfl
  cases hr

end Reported

/-- **Accepted results against the schema.** The row of an accepted result satisfies the
`CHECK` constraints of `results` exactly if an object comes with a SHA-256 in lowercase
hex, and is also at the types of its columns exactly if bucket and key have no NUL and
`jsonb` takes the inline body. In every reachable state a table refuses the report of an
accepted result only if that is not so, and the report that is stored is one for which it
is. -/
theorem accepted_result_checked_iff {payload : ResultPayload} {ref : ResultRef}
    (haccepted : parseResultPayload (some payload) = .ok (some ref)) :
    (∀ (db : DB) (j : Job), j ∈ db.jobs.rows → ∀ (start : Int) (attemptID : UUID),
      ((resultRow start j.scope j.id attemptID ref).constraints = true ↔
        (payload.location = "object" → matchesHex64 payload.checksumSHA256 = true)) ∧
      ((resultRow start j.scope j.id attemptID ref).check = true ↔ payload.Storable)) ∧
    ∀ (w w' : World) (l : Label) (scope : String) (fence : Fence), Reachable w → Step w l w' →
      l.request.call = .succeed scope fence (some ref) →
      (∀ e t v, l.outcome = .error ⟨e, .schema t v⟩ → ¬ payload.Storable) ∧
      (∀ ans, l.outcome = .ok ans →
        (∀ j ∈ w.db.jobs.rows, j.id = fence.jobID → j.status ≠ .succeeded) →
          payload.Storable) := by
  have hvalid := (parseResultPayload_eq_ok.mp haccepted).2
  constructor
  · intro db j hj start attemptID
    have hscope := (db.job_checked hj).scope
    rw [resultRow_constraints start j.id attemptID hvalid hscope]
    exact ⟨digested_iff haccepted, checked_iff haccepted start j.id attemptID hscope⟩
  · intro w w' l scope fence hw hs hcall
    constructor
    · intro e t v hout hstorable
      have hrun : answering (fun _ => .succeeded)
          (succeed l.request.env scope fence (some ref) w.db) = .error ⟨e, .schema t v⟩ :=
        (hs.failed hcall hout).1
      exact hw.sound.succeed_not_refused hs.clock_le_sample (answering_eq_error.mp hrun)
        (fun jobID attemptID hscope => (checked_iff haccepted _ jobID attemptID hscope).mpr
          hstorable) t v rfl
    · intro ans hans hfirst
      have hcheck : ResultRow.check _ = true :=
        w'.db.results.checked _ (hs.report_stored hcall hans hfirst)
      have hscope : scopeBounded scope = true := by
        simp only [ResultRow.check, ResultRow.constraints, Bool.and_eq_true] at hcheck
        exact hcheck.1.1.1.1.1.1.1
      exact (checked_iff haccepted _ _ _ hscope).mp hcheck

/-- A database that writes every number as it came. -/
def sampleJsonb : Jsonb := plainJsonb

/-- An upload as the worker reports it, which is stored, and one with another checksum,
for which the constraints fail. -/
theorem accepted_result_checked_sample :
    ResultPayload.Storable ⟨"object", none, "results", resultKey "tenant" 2 4, 6,
        "0123456789abcdef0123456789abcdef0123456789abcdef0123456789abcdef"⟩ ∧
    (∃ ref, parseResultPayload (some ⟨"object", none, "bucket", "key", 1, "abc"⟩) = .ok (some ref) ∧
      ((resultRow 5 "tenant" 2 4 ref).constraints = true ↔
        ("object" = "object" → matchesHex64 "abc" = true))) := by
  obtain ⟨hclock, hfirst, hstored, j, hj, hid, hscope⟩ : (quiet.exec sampleStart).2.clock ≤ 5 ∧
      (∀ j ∈ (quiet.exec sampleStart).2.db.jobs.rows, j.id = 2 → j.status ≠ .succeeded) ∧
      ((quiet.exec sampleStart).2.step (sampleUploaded (resultKey "tenant" 2 4))).1.outcome =
        .ok .succeeded ∧
      ∃ j ∈ (quiet.exec sampleStart).2.db.jobs.rows, j.id = 2 ∧ j.scope = "tenant" := by
    decide +kernel
  constructor
  · have haccepted : parseResultPayload (some ⟨"object", none, "results", resultKey "tenant" 2 4, 6,
        "0123456789abcdef0123456789abcdef0123456789abcdef0123456789abcdef"⟩) =
        .ok (some (sampleUpload (resultKey "tenant" 2 4))) := rfl
    exact ((accepted_result_checked_iff haccepted).2 (quiet.exec sampleStart).2 _ _
      "tenant" sampleFence (quiet_reachable (by decide))
      (@World.step_step _ (sampleUploaded (resultKey "tenant" 2 4)) hclock)
      (by rw [World.step_request]; rfl)).2 .succeeded hstored hfirst
  · have haccepted : parseResultPayload (some ⟨"object", none, "bucket", "key", 1, "abc"⟩) =
        .ok (some ⟨.object, none, "bucket", "key", 1, "abc"⟩) := rfl
    have hiff := ((accepted_result_checked_iff haccepted).1 _ j hj 5 4).1
    rw [hid, hscope] at hiff
    exact ⟨_, haccepted, hiff⟩

/-- `parseResultPayload` accepts the checksum `abc`; the row breaks a constraint, and the
report of the running attempt is rolled back with an internal error, every time it is
made. So is the report of an inline string of one U+0000, which breaks no constraint. -/
theorem unchecked_checksum_refused :
    (∃ ref, parseResultPayload (some ⟨"object", none, "bucket", "key", 1, "abc"⟩) =
        .ok (some ref) ∧ (resultRow 5 "tenant" 2 4 ref).constraints = false) ∧
    (∃ ref, parseResultPayload (some ⟨"inline", some "\"\\u0000\"", "", "", 8, ""⟩) =
        .ok (some ref) ∧ (resultRow 5 "tenant" 2 4 ref).constraints = true) ∧
    Reachable (quiet.exec sampleStart).2 ∧
    ∀ report ∈ [sampleObject "abc", sampleInline "\"\\u0000\""],
      ((quiet.exec sampleStart).2.step report).1.outcome =
        .error ⟨.failed "insert result", .schema .results .check⟩ ∧
      ((quiet.exec sampleStart).2.step report).2.db = (quiet.exec sampleStart).2.db :=
  ⟨⟨_, rfl, by decide +kernel⟩, ⟨_, rfl, by decide +kernel⟩, quiet_reachable (by decide),
    by decide +kernel⟩

/-! ## What is served of a result -/

/-- The result as the API decodes it from the report: an inline body is the text
`Client.Succeed` sent. -/
def ResultRef.received (r : ResultRef) : ResultRef :=
  { r with inline := r.inline.map fun raw => String.ofList (compact true raw.toList) }

/-- The body `writeJSON` sends of what `handleGetJobResult` serves. An inline body is the
text its column is read as, an object the bytes that were fetched. -/
def servedText (J : Jsonb) : ResultResponse × Option (String × String) → Option Text
  | (.served body, none) => some (writeJSON (rawMessage (String.ofList (payloadText J body))))
  | (.served body, some _) => some (writeJSON (rawMessage body))
  | _ => none

/-- An output that comes back as it was. From the object store: nowhere in it is a
character that `encoding/json` escapes, and nowhere between its strings a blank. From the
database: it is the spelling on the wire of a document that PostgreSQL stores as it is. -/
def Unchanged (J : Jsonb) : Location → String → Prop
  | .inline, output => ∃ v : Value, v.WellFormed ∧ J.stored v = v ∧ output.toList = encode wire v
  | _, output => ∀ before c after, output.toList = before ++ c :: after →
      c ∉ ['<', '>', '&', '\u2028', '\u2029'] ∧
        (before.foldl Mode.next .plain = .plain → c ∉ [' ', '\t', '\n', '\r'])

/-- What a handler's output has become when it is served, without the newline. -/
def servedForm (J : Jsonb) (location : Location) (output : String) : Text :=
  match location with
  | .inline => ((documentOf output).map fun v => encode wire (J.stored v)).getD []
  | _ => compact true output.toList

section Forms

variable {J : Jsonb} {output : String}

theorem validJSON_eq_true : validJSON output = true ↔
    ∃ v rest, read maxNestingDepth output.toList = some (v, rest) ∧ skipBlanks rest = [] := by
  unfold validJSON
  rw [Option.any_eq_true]
  simp only [beq_iff_eq, Prod.exists]

theorem validJSON_encode {style : Style} (hstyle : style.Lawful) {v : Value}
    (hv : v.Within maxNestingDepth) : validJSON (String.ofList (encode style v)) = true := by
  have hread := read_encode hstyle hv (r := []) (fun _ _ h => by cases h)
  rw [List.append_nil] at hread
  rw [validJSON, String.toList_ofList, hread]
  rfl

/-- The document of a valid output is the document of what is sent of it, and it is
served as Go spells what PostgreSQL stored. -/
theorem rawMessage_column (hvalid : validJSON output = true) :
    rawMessage (String.ofList (payloadText J (String.ofList (compact true output.toList)))) =
      some (servedForm J .inline output) := by
  obtain ⟨v, rest, hread, hrest⟩ := validJSON_eq_true.mp hvalid
  have hwithin := read_sound hread
  have hsent : documentOf (String.ofList (compact true output.toList)) = some v := by
    rw [documentOf, String.toList_ofList, read_compact hread hrest hwithin.2]
    rfl
  have hdocument : documentOf output = some v := by
    rw [documentOf, hread]
    rfl
  rw [payloadText, hsent, servedForm, hdocument]
  simp only [Option.map_some, Option.getD_some, Jsonb.text]
  rw [rawMessage, if_pos (validJSON_encode jsonbStyle_lawful (J.stored_within hwithin)),
    String.toList_ofList, compact_encode (J.stored_within hwithin).1]
  rfl

theorem rawMessage_object (hvalid : validJSON output = true) :
    rawMessage output = some (servedForm J .object output) := by
  rw [rawMessage, if_pos hvalid]
  rfl

/-- What is its own spelling in the database is its own compaction. -/
theorem servedForm_object (hvalid : validJSON output = true)
    (h : servedForm J .inline output = output.toList) :
    servedForm J .object output = output.toList := by
  obtain ⟨v, rest, hread, -⟩ := validJSON_eq_true.mp hvalid
  have hstored := J.stored_within (read_sound hread)
  rw [servedForm, documentOf, hread] at h
  simp only [Option.map_some, Option.getD_some] at h
  have hcompact : compact true (encode jsonbStyle (J.stored v)) = output.toList :=
    (compact_encode hstored.1).trans h
  show compact true output.toList = output.toList
  rw [← hcompact]
  exact compactFrom_idem .plain _

theorem servedForm_inline_iff (hvalid : validJSON output = true) :
    servedForm J .inline output = output.toList ↔ Unchanged J .inline output := by
  obtain ⟨v, rest, hread, -⟩ := validJSON_eq_true.mp hvalid
  have hend : ∀ u : Value, (∃ literal, u = .number literal) → Halts isNumberChar [] :=
    fun _ _ _ h => by cases h
  have hform : servedForm J .inline output = encode wire (J.stored v) := by
    rw [servedForm, documentOf, hread]
    rfl
  -- A text on the wire is read as the document it spells.
  have hsame : ∀ u : Value, u.WellFormed → output.toList = encode wire u → v = u := by
    intro u hu houtput
    have hdepth : u.depth ≤ maxNestingDepth := by
      refine (read_encode_iff (goStyle_lawful true) hu (hend u)).mp ?_
      rw [List.append_nil, show encode (goStyle true) u = output.toList from houtput.symm, hread]
      rfl
    have hwhole := read_encode (goStyle_lawful true) ⟨hu, hdepth⟩ (hend u)
    rw [List.append_nil, show encode (goStyle true) u = output.toList from houtput.symm,
      hread] at hwhole
    exact congrArg Prod.fst (Option.some.inj hwhole)
  rw [hform]
  constructor
  · intro h
    have hwf := (J.stored_within (read_sound hread)).1
    exact ⟨J.stored v, hwf, congrArg J.stored (hsame _ hwf h.symm).symm, h.symm⟩
  · rintro ⟨u, hwf, hstored, houtput⟩
    rw [hsame u hwf houtput, hstored, houtput]

theorem servedForm_object_iff :
    servedForm J .object output = output.toList ↔ Unchanged J .object output := by
  refine compactFrom_eq_self_iff.trans ?_
  simp only [Unchanged, goExtra, isMarkup, isLineSeparator, isBlank, Bool.true_and,
    Bool.or_eq_false_iff, beq_eq_false_iff_ne, List.mem_cons, List.not_mem_nil, or_false, not_or,
    ne_eq, and_assoc]

/-- An output that comes back from the database comes back from the object store. -/
theorem Unchanged.object (hvalid : validJSON output = true) (h : Unchanged J .inline output) :
    Unchanged J .object output :=
  servedForm_object_iff.mp (servedForm_object hvalid ((servedForm_inline_iff hvalid).mpr h))

theorem servedForm_iff (hvalid : validJSON output = true) {location : Location}
    (h : location = .inline ∨ location = .object) :
    servedForm J location output = output.toList ↔ Unchanged J location output := by
  rcases h with rfl | rfl
  · exact servedForm_inline_iff hvalid
  · exact servedForm_object_iff

end Forms

section Served

variable {w w' w'' : World} {l : Label} {trace : List Label} {scope : String} {fence : Fence}
  {ref : ResultRef} {worker : ResultConfig} {output : String} {objects : ObjectStore}

/-- A row that holds its result inline is served from its column. -/
theorem handleGetJobResult_of_inline {db : DB} {server : ResultServer} {r : ResultRow}
    (hresults : server.results = true) (hr : r ∈ db.results.rows) (hlocation : r.location = .inline) :
    handleGetJobResult server db (some r.scope) (some r.jobID) =
      (.served (r.inlineBody.getD ""), none) := by
  have hget : getResult db r.scope r.jobID = .ok (resultView r) :=
    getResult_eq_ok.mpr ⟨r, hr, rfl, rfl, rfl⟩
  simp [handleGetJobResult, hresults, hget, resultView, hlocation]

/-- What `prepareResult` reports of an output. -/
theorem prepareResult_cases (h : prepareResult worker fence scope output = some (some ref)) :
    (ref = inlineRef output ∧ output ≠ "") ∨ (ref.location = .object ∧ ref.inline = none) := by
  unfold prepareResult at h
  dsimp only at h
  split_ifs at h with hempty
  · cases h
  · cases h
    exact .inl ⟨rfl, hempty⟩
  · cases h
    exact .inr ⟨rfl, rfl⟩

/-- After the first success report of an output, and from then on, what is served is
what the output has become. -/
theorem Step.report_served (J : Jsonb) (hs : Step w l w') (hsound : Sound w)
    (hvalid : validJSON output = true)
    (hprepared : prepareResult worker fence scope output = some (some ref))
    (hcall : l.request.call = .succeed scope fence (some ref.received)) {ans : Answer}
    (hans : l.outcome = .ok ans)
    (hfirst : ∀ j ∈ w.db.jobs.rows, j.id = fence.jobID → j.status ≠ .succeeded)
    (hlater : Execution w' trace w'')
    (hobject : ref.location = .object → objects ref.bucket ref.key = some output) :
    servedText J (handleGetJobResult ⟨true, some objects⟩ w''.db (some scope) (some fence.jobID)) =
      some (servedForm J ref.location output ++ ['\n']) := by
  have hstored := hs.report_stored hcall hans hfirst
  have hkept := ((hs.sound hsound).permanent hlater).result _ hstored
  rcases prepareResult_cases hprepared with ⟨rfl, hne⟩ | ⟨hlocation, hinline⟩
  · have hsent : compact true output.toList ≠ [] := by
      obtain ⟨v, rest, hread, hrest⟩ := validJSON_eq_true.mp hvalid
      have hcompact := @read_compact true _ _ _ _ _ hread hrest (read_sound hread).2
      rintro hnil
      rw [hnil] at hcompact
      cases hcompact
    have hcolumn : (resultRow l.request.env.clock.start scope fence.jobID fence.attemptID
        (inlineRef output).received).inlineBody.getD "" =
        String.ofList (compact true output.toList) := by
      have hne' : String.ofList (compact true output.toList) ≠ "" := by
        intro heq
        exact hsent (by rw [← String.toList_ofList (l := compact true output.toList), heq]; rfl)
      simp only [resultRow, ResultRef.received, inlineRef, Option.map_some, Option.bind_some,
        nullableString, if_neg hne', Option.getD_some]
    have hget : handleGetJobResult ⟨true, some objects⟩ w''.db (some scope) (some fence.jobID) =
        (.served _, none) := handleGetJobResult_of_inline rfl hkept rfl
    rw [hget, hcolumn, servedText, rawMessage_column hvalid]
    rfl
  · have hrow := resultRow_object hkept (show ref.received.location = .object from hlocation)
    have hget : handleGetJobResult ⟨true, some objects⟩ w''.db (some scope) (some fence.jobID) =
        (.served output, some (_, _)) :=
      handleGetJobResult_of_object hkept hlocation (by rw [hrow.1, hrow.2]; exact hobject hlocation)
    rw [hget, servedText, rawMessage_object hvalid, hlocation]
    rfl

/-- **Results as they are served.** After the first success report of a valid output,
whichever way the threshold sends it, and in every later state, the body served for the
job is the output and a newline exactly if the output is one that comes back as it was:
inline, the spelling on the wire of a document PostgreSQL stores as it is, and in the
object store, a text without characters that are escaped and without blanks between its
strings. An output that is served unchanged inline is served unchanged, and so the same,
from the object store. -/
theorem results_served_iff (J : Jsonb) (hne : output ≠ "") (hvalid : validJSON output = true)
    (hprepared : prepareResult worker fence scope output = some (some ref)) (hw : Reachable w)
    (hs : Step w l w') (hcall : l.request.call = .succeed scope fence (some ref.received))
    {ans : Answer} (hans : l.outcome = .ok ans)
    (hfirst : ∀ j ∈ w.db.jobs.rows, j.id = fence.jobID → j.status ≠ .succeeded)
    (hlater : Execution w' trace w'')
    (hobject : ref.location = .object → objects ref.bucket ref.key = some output) :
    (∃ body, servedText J (handleGetJobResult ⟨true, some objects⟩ w''.db (some scope)
        (some fence.jobID)) = some body ∧
      (body = output.toList ++ ['\n'] ↔ Unchanged J ref.location output)) ∧
    ref.location = classify output worker.resultInlineThresholdBytes ∧
    (Unchanged J .inline output → Unchanged J .object output) := by
  refine ⟨⟨_, hs.report_served J hw.sound hvalid hprepared hcall hans hfirst hlater hobject, ?_⟩,
    ?_, Unchanged.object hvalid⟩
  · have hlocation : ref.location = .inline ∨ ref.location = .object := by
      rcases prepareResult_cases hprepared with ⟨rfl, -⟩ | ⟨hlocation, -⟩
      · exact .inl rfl
      · exact .inr hlocation
    rw [← servedForm_iff hvalid hlocation]
    exact ⟨List.append_cancel_right, fun h => by rw [h]⟩
  · unfold prepareResult at hprepared
    rw [if_neg hne] at hprepared
    dsimp only at hprepared
    split_ifs at hprepared with hinline
    · cases hprepared
      exact hinline.symm
    · cases hprepared
      unfold classify at hinline ⊢
      split_ifs at hinline ⊢ with hlarge
      · rfl
      · exact absurd rfl hinline

end Served

/-- A worker that keeps nothing inline, with the checksum its store computes. -/
def sampleUploader : ResultConfig :=
  ⟨1, "results", true, fun _ _ _ => true,
    fun _ => "0123456789abcdef0123456789abcdef0123456789abcdef0123456789abcdef"⟩

/-- The success report of the running attempt, as the API decodes it. -/
def sampleReported (worker : ResultConfig) (output : String) : Request :=
  ⟨envAt 5 0 0, .succeed "tenant" sampleFence
    (((prepareResult worker sampleFence "tenant" output).getD none).map ResultRef.received)⟩

/-- What is served of it, by an object store that has the output under every name. -/
def sampleServed (worker : ResultConfig) (output : String) : Option Text :=
  servedText sampleJsonb (handleGetJobResult ⟨true, some fun _ _ => some output⟩
    ((quiet.exec sampleStart).2.step (sampleReported worker output)).2.db (some "tenant") (some 2))

/-- A list of two numbers comes back either way. -/
theorem results_served_list :
    sampleServed sampleWorker "[1,2]" = some ("[1,2]".toList ++ ['\n']) ∧
      sampleServed sampleUploader "[1,2]" = some ("[1,2]".toList ++ ['\n']) := by
  have hunchanged : Unchanged sampleJsonb .inline "[1,2]" :=
    ⟨.array [.number ['1'], .number ['2']],
      .array (by simpa [Value.WellFormed, Value.nodes] using by decide), rfl, by decide +kernel⟩
  have hvalid : validJSON "[1,2]" = true := by decide +kernel
  have hinline : prepareResult sampleWorker sampleFence "tenant" "[1,2]" =
      some (some (inlineRef "[1,2]")) := by decide +kernel
  have hobject : prepareResult sampleUploader sampleFence "tenant" "[1,2]" =
      some (some ⟨.object, none, "results", resultKey "tenant" 2 4, 5,
        "0123456789abcdef0123456789abcdef0123456789abcdef0123456789abcdef"⟩) := by decide +kernel
  -- The running attempt, and both reports of it.
  obtain ⟨hclock, hfirst, hstored, huploaded⟩ : (quiet.exec sampleStart).2.clock ≤ 5 ∧
      (∀ j ∈ (quiet.exec sampleStart).2.db.jobs.rows, j.id = 2 → j.status ≠ .succeeded) ∧
      ((quiet.exec sampleStart).2.step (sampleReported sampleWorker "[1,2]")).1.outcome =
        .ok .succeeded ∧
      ((quiet.exec sampleStart).2.step (sampleReported sampleUploader "[1,2]")).1.outcome =
        .ok .succeeded := by decide +kernel
  obtain ⟨body, hbody, hiff⟩ : ∃ body, sampleServed sampleWorker "[1,2]" = some body ∧
      (body = "[1,2]".toList ++ ['\n'] ↔ Unchanged sampleJsonb .inline "[1,2]") :=
    (results_served_iff sampleJsonb (by decide) hvalid hinline (quiet_reachable (by decide))
      (@World.step_step _ (sampleReported sampleWorker "[1,2]") hclock)
      (by rw [World.step_request, sampleReported, hinline]; rfl)
      hstored hfirst (.nil _) (fun _ => rfl)).1
  obtain ⟨body', hbody', hiff'⟩ : ∃ body, sampleServed sampleUploader "[1,2]" = some body ∧
      (body = "[1,2]".toList ++ ['\n'] ↔ Unchanged sampleJsonb .object "[1,2]") :=
    (results_served_iff sampleJsonb (by decide) hvalid hobject (quiet_reachable (by decide))
      (@World.step_step _ (sampleReported sampleUploader "[1,2]") hclock)
      (by rw [World.step_request, sampleReported, hobject]; rfl)
      huploaded hfirst (.nil _) (fun _ => rfl)).1
  rw [hbody, hbody', hiff.mpr hunchanged, hiff'.mpr (hunchanged.object hvalid)]
  exact ⟨rfl, rfl⟩

/-- One valid output, reported with a success twice over: from the database its members
come back in another order, from the object store its markup comes back escaped, so that
neither is the output and the two differ. -/
theorem results_served_changed :
    validJSON "\x7b\"b\":\"<\",\"a\":1\x7d" = true ∧
    Reachable (quiet.exec sampleStart).2 ∧
    (∀ worker ∈ [sampleWorker, sampleUploader], ((quiet.exec sampleStart).2.step
      (sampleReported worker "\x7b\"b\":\"<\",\"a\":1\x7d")).1.outcome = .ok .succeeded) ∧
    sampleServed sampleWorker "\x7b\"b\":\"<\",\"a\":1\x7d" =
      some "\x7b\"a\":1,\"b\":\"\\u003c\"\x7d\n".toList ∧
    sampleServed sampleUploader "\x7b\"b\":\"<\",\"a\":1\x7d" =
      some "\x7b\"b\":\"\\u003c\",\"a\":1\x7d\n".toList :=
  ⟨by decide +kernel, quiet_reachable (by decide), by decide +kernel⟩

end TaskForge
