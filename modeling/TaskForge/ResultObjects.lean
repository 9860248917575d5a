/-
Results in the object store: who names the object, and what is served.

A worker that has a large result uploads it under `results/<scope>/<job>/<attempt>`
in the configured bucket and names bucket and key in its success report
(`prepareResult`). The API checks the report's shape (`parseResultPayload`), stores
it, and when the result is asked for, fetches what the row names
(`handleGetJobResult`). Nothing on the way compares the name with the one the worker
was to use, so what is served is whatever was reported: the object of the job's own
attempt if the report named it (`Label.ReportsOwn`), and any other object of the store
if not.
-/
import TaskForge.DeadLetters
import TaskForge.Reads

open Relational Fallible

namespace TaskForge

/-! ## The worker's report -/

/-- The thirty-two hexadecimal digits of a UUID. -/
def hexDigits (u : UUID) : List Char :=
  (List.range 32).map fun i => Nat.digitChar (u.toNat / 16 ^ (31 - i) % 16)

/-- `uuid.UUID.String`: groups of 8, 4, 4, 4 and 12 digits. -/
def uuidString (u : UUID) : String :=
  let ds := hexDigits u
  String.ofList (ds.take 8 ++ '-' :: (ds.drop 8).take 4 ++ '-' :: (ds.drop 12).take 4 ++
    '-' :: (ds.drop 16).take 4 ++ '-' :: ds.drop 20)

/-- `results/<scope>/<job>/<attempt>` -/
def resultKey (scope : String) (jobID attemptID : UUID) : String :=
  "results/" ++ scope ++ "/" ++ uuidString jobID ++ "/" ++ uuidString attemptID

/-- `results.Classify` -/
def classify (body : String) (thresholdBytes : ℕ) : Location :=
  if thresholdBytes ≤ octetLength body then .object else .inline

/-- What `prepareResult` needs of the worker: its threshold and bucket, whether it has
an object store, what an upload there comes to, and SHA-256 in hexadecimal. -/
structure ResultConfig where
  resultInlineThresholdBytes : ℕ
  resultsBucket : String
  objects : Bool
  put : String → String → String → Bool
  checksum : String → String

/-- `prepareResult`: the report's result, or nothing if there is none to report; `none`
if a required upload was not made. -/
def prepareResult (cfg : ResultConfig) (fence : Fence) (scope handlerResult : String) :
    Option (Option ResultRef) :=
  if handlerResult = "" then some none
  else if classify handlerResult cfg.resultInlineThresholdBytes = .inline then
    some (some ⟨.inline, some handlerResult, "", "", octetLength handlerResult, ""⟩)
  else if cfg.objects = false then none
  else
    let key := resultKey scope fence.jobID fence.attemptID
    if cfg.put cfg.resultsBucket key handlerResult then
      some (some ⟨.object, none, cfg.resultsBucket, key, octetLength handlerResult,
        cfg.checksum handlerResult⟩)
    else none

/-! ## The API's reading of it -/

/-- `resultPayload` -/
structure ResultPayload where
  location : String
  inlineBody : Option String
  objectBucket : String
  objectKey : String
  sizeBytes : Int
  checksumSHA256 : String
deriving DecidableEq, Repr

/-- `results.Location(payload.Location)` -/
def Location.ofWord (word : String) : Location :=
  if word = "inline" then .inline else if word = "object" then .object else .other word

/-- `parseResultPayload` -/
def parseResultPayload : Option ResultPayload → Except (List FieldError) (Option ResultRef)
  | none => .ok none
  | some payload =>
    let ref : ResultRef := ⟨.ofWord payload.location, payload.inlineBody, payload.objectBucket,
      payload.objectKey, payload.sizeBytes, payload.checksumSHA256⟩
    match ref.problem with
    | some message => .error [⟨"result", message⟩]
    | none => .ok (some ref)

/-! ## Serving a result -/

/-- What `GET /v1/jobs/{job_id}/result` answers. -/
inductive ResultResponse where
  | unauthorized
  | notFound (message : String)
  | internalError (operation : String)
  | served (body : String)
deriving DecidableEq, Repr

/-- `objectstore.Client.Get`: the bytes under a bucket and a key, or an error. -/
abbrev ObjectStore := String → String → Option String

/-- The API process: whether it has a results store, and its object store if it has
one. -/
structure ResultServer where
  results : Bool
  objects : Option ObjectStore

/-- `handleGetJobResult`, with the scope of the caller's key if it has one and the job
id if it parses. The second component is the bucket and key the handler asked the
object store for. -/
def handleGetJobResult (server : ResultServer) (db : DB) :
    Option String → Option UUID → ResultResponse × Option (String × String)
  | none, _ => (.unauthorized, none)
  | some scope, id =>
    if server.results = false then (.internalError "get job result", none)
    else match id with
    | none => (.notFound "result not found", none)
    | some id =>
      match getResult db scope id with
      | .error _ => (.notFound "result not found", none)
      | .ok result =>
        if result.location = .object then
          match server.objects with
          | none => (.internalError "get job result", none)
          | some objects =>
            match objects result.objectBucket result.objectKey with
            | none =>
              (.internalError "fetch object result", some (result.objectBucket, result.objectKey))
            | some body => (.served body, some (result.objectBucket, result.objectKey))
        else (.served (result.inlineBody.getD ""), none)

section Serving

variable {server : ResultServer} {db : DB} {scope : String} {id : UUID}

theorem getResult_eq_ok {v : ResultView} :
    getResult db scope id = .ok v ↔
      ∃ r ∈ db.results.rows, r.jobID = id ∧ r.scope = scope ∧ v = resultView r := by
  unfold getResult orFail
  cases hfind : db.results.rows.find? fun r => r.jobID == id && r.scope == scope with
  | none =>
    simp only [Option.elim_none, error_bind, reduceCtorEq, false_iff, not_exists, not_and]
    intro r hr hjob hscope
    refine absurd ?_ (List.find?_eq_none.mp hfind r hr)
    rw [hjob, hscope, beq_self_eq_true, beq_self_eq_true, Bool.and_true]
  | some r =>
    obtain ⟨hmem, hr⟩ := found_of_find? hfind
    rw [Bool.and_eq_true, beq_iff_eq, beq_iff_eq] at hr
    simp only [Option.elim_some, ok_bind, pure_eq_ok]
    constructor
    · rintro rfl
      exact ⟨r, hmem, hr.1, hr.2, rfl⟩
    · rintro ⟨q, hq, hjob, -, rfl⟩
      have hclash : results.clash r q = true :=
        sameKey_eq_true.mpr ⟨id, congrArg some hr.1, congrArg some hjob⟩
      rw [db.results.eq_of_clash hmem hq hclash]

/-- **What the handler asks the object store for** is what the row of the job, under
the caller's scope, names. -/
theorem handleGetJobResult_fetched {caller : Option String} {job : Option UUID}
    {response : ResultResponse} {bucket key : String}
    (h : handleGetJobResult server db caller job = (response, some (bucket, key))) :
    ∃ scope id, caller = some scope ∧ job = some id ∧ ∃ r ∈ db.results.rows, r.jobID = id ∧
      r.scope = scope ∧ r.location = .object ∧ bucket = r.objectBucket.getD "" ∧
        key = r.objectKey.getD "" := by
  unfold handleGetJobResult at h
  cases caller with
  | none => cases h
  | some scope =>
    dsimp only at h
    split_ifs at h with hresults
    · cases h
    cases job with
    | none => cases h
    | some id =>
      dsimp only at h
      refine ⟨scope, id, rfl, rfl, ?_⟩
      cases hget : getResult db scope id with
      | error e =>
        rw [hget] at h
        cases h
      | ok v =>
        obtain ⟨r, hr, hjob, hscope, rfl⟩ := getResult_eq_ok.mp hget
        rw [hget] at h
        dsimp only at h
        split_ifs at h with hlocation
        · refine ⟨r, hr, hjob, hscope, hlocation, ?_⟩
          cases hobjects : server.objects with
          | none =>
            rw [hobjects] at h
            cases h
          | some objects =>
            rw [hobjects] at h
            dsimp only at h
            split at h <;> cases h <;> exact ⟨rfl, rfl⟩
        · cases h

/-- And a row in the object store is asked for. -/
theorem handleGetJobResult_of_object {objects : ObjectStore} {r : ResultRow} {body : String}
    (hr : r ∈ db.results.rows) (hlocation : r.location = .object)
    (hbody : objects (r.objectBucket.getD "") (r.objectKey.getD "") = some body) :
    handleGetJobResult ⟨true, some objects⟩ db (some r.scope) (some r.jobID)
      = (.served body, some (r.objectBucket.getD "", r.objectKey.getD "")) := by
  have hget : getResult db r.scope r.jobID = .ok (resultView r) :=
    getResult_eq_ok.mpr ⟨r, hr, rfl, rfl, rfl⟩
  simp [handleGetJobResult, hget, resultView, hlocation, hbody]

end Serving

/-! ## Keys -/

theorem uuidString_length (u : UUID) : (uuidString u).toList.length = 36 := by
  simp [uuidString, hexDigits]

/-- A key tells its scope: what follows the scope has the same length in every key. -/
theorem resultKey_scope {s s' : String} {j j' a a' : UUID}
    (h : resultKey s j a = resultKey s' j' a') : s = s' := by
  have hlist := congrArg String.toList h
  simp only [resultKey, String.toList_append, List.append_assoc] at hlist
  have hrest := List.append_cancel_left hlist
  refine String.toList_inj.mp (List.append_inj_left' hrest ?_)
  simp only [List.length_append, uuidString_length]

/-! ## What the rows name -/

/-- The bucket and the key are the configured bucket and the key of the job and its
succeeding attempt. -/
structure OwnObject (bucket : String) (db : DB) (scope : String) (jobID : UUID) (b k : String) :
    Prop where
  bucket_eq : b = bucket
  key_eq : ∃ a ∈ db.attempts.rows, a.jobID = jobID ∧ a.status = .succeeded ∧
    k = resultKey scope jobID a.id

/-- An accepted success report that names an object names the configured bucket and
the key of its own attempt. -/
def Label.ReportsOwn (bucket : String) (l : Label) : Prop :=
  ∀ scope fence ref ans, l.request.call = .succeed scope fence (some ref) →
    l.outcome = .ok ans → ref.location = .object →
      ref.bucket = bucket ∧ ref.key = resultKey scope fence.jobID fence.attemptID

/-- Every stored result that is in the object store is where it belongs. -/
def RowsOwn (bucket : String) (db : DB) : Prop :=
  ∀ r ∈ db.results.rows, r.location = .object →
    r.objectBucket = some bucket ∧ r.objectKey = some (resultKey r.scope r.jobID r.attemptID)

section Rows

variable {env : Env} {db : DB} {w w' : World} {l : Label} {bucket : String}

/-- The only result a call writes is the one its success report names. -/
theorem Performs.result_reported {call : Call} {id : UUID} {writes : Writes} {r : ResultRow}
    (h : Performs env db call id writes) (hr : r ∈ writes.results) :
    ∃ scope fence ref, call = .succeed scope fence (some ref) ∧
      r = resultRow env.clock.start scope fence.jobID fence.attemptID ref := by
  cases h with
  | succeed scope fence result s j a m binding ready =>
    obtain ⟨ref, hresult, rfl⟩ := Option.map_eq_some_iff.mp (Option.mem_toList.mp hr)
    rw [Option.mem_def.mp hresult]
    exact ⟨scope, fence, ref, rfl, by rw [binding.job_id, binding.attempt_id]⟩
  | expire stats s j a m writes binding lapsed verdict => cases verdict <;> cases hr
  | _ => cases hr

/-- A result of the object store names the bucket and the key of its report: the
shape the schema asks for leaves neither empty. -/
theorem resultRow_object {start : Int} {scope : String} {j a : UUID} {ref : ResultRef}
    (hmem : resultRow start scope j a ref ∈ db.results.rows) (hobject : ref.location = .object) :
    (resultRow start scope j a ref).objectBucket = some ref.bucket ∧
      (resultRow start scope j a ref).objectKey = some ref.key := by
  have hcheck := db.results.checked _ hmem
  simp only [results, ResultRow.check, ResultRow.constraints, ResultRow.locationShape, resultRow,
    hobject, Bool.and_eq_true] at hcheck
  obtain ⟨⟨⟨⟨-, ⟨⟨-, hbucket⟩, hkey⟩, -⟩, -⟩, -⟩, -⟩ := hcheck
  have hsome : ∀ {v : String}, (nullableString v).isSome = true → nullableString v = some v := by
    intro v hv
    unfold nullableString at hv ⊢
    by_cases hempty : v = ""
    · rw [if_pos hempty] at hv
      cases hv
    · rw [if_neg hempty]
  exact ⟨hsome hbucket, hsome hkey⟩

theorem Step.rowsOwn (hs : Step w l w') (hl : l.ReportsOwn bucket) (h : RowsOwn bucket w.db) :
    RowsOwn bucket w'.db := by
  intro r hr hobject
  cases hs with
  | refused clock run => exact h r hr hobject
  | @committed req ans db' clock run =>
    obtain ⟨env, call⟩ := req
    have hcommit : Commit env w.db db' call := Call.commit run
    cases hcommit with
    | unchanged call same => exact h r (by rw [← same]; exact hr) hobject
    | registered scope registration reg wid valid only =>
      exact h r (by rw [← only.results]; exact hr) hobject
    | beat scope req s session scope_eq healthy moved | staled s staleAfter stale moved =>
      exact h r (by rw [← moved.only.results]; exact hr) hobject
    | wrote call id writes performs applied =>
      have hrows := hr
      rw [applied.results, List.mem_append] at hrows
      rcases hrows with hold | hnew
      · exact h r hold hobject
      · obtain ⟨scope, fence, ref, hcall, rfl⟩ := performs.result_reported hnew
        obtain ⟨hbucket, hkey⟩ := hl scope fence ref ans hcall rfl hobject
        obtain ⟨hrbucket, hrkey⟩ := resultRow_object hr hobject
        exact ⟨by rw [hrbucket, hbucket], by rw [hrkey, hkey]; rfl⟩

theorem Initial.rowsOwn (h : Initial w) : RowsOwn bucket w.db := by
  intro r hr
  rw [h.results] at hr
  cases hr

/-- What is fetched from rows that are where they belong is the job's own. -/
theorem RowsOwn.fetched (h : RowsOwn bucket w.db) (hsound : Sound w) {server : ResultServer}
    {scope : String} {id : UUID} {response : ResultResponse} {b k : String}
    (hget : handleGetJobResult server w.db (some scope) (some id) = (response, some (b, k))) :
    OwnObject bucket w.db scope id b k := by
  obtain ⟨scope', id', hscope, hid, r, hr, hjob, hrscope, hobject, hb, hk⟩ :=
    handleGetJobResult_fetched hget
  cases hscope
  cases hid
  obtain ⟨hbucket, hkey⟩ := h r hr hobject
  obtain ⟨j, hj, hjid, -, a, ha, haid, hajob, hstatus⟩ := hsound.exactEnds.result r hr
  refine ⟨?_, a, ha, hajob.trans (hjid.trans hjob), hstatus, ?_⟩
  · rw [hb, hbucket]
    rfl
  · rw [hk, hkey, hrscope, hjob, haid]
    rfl

end Rows

/-! ## What is served -/

section Served

variable {w w' : World} {l : Label} {bucket scope : String} {fence : Fence} {ref : ResultRef}
  {ans : Answer}

/-- A job has one succeeding attempt at most: every earlier one was retried. -/
theorem Phase.succeeded_unique {now : Int} {j : Job} {cf : CaseFile} (h : Phase now j cf)
    {a b : JobAttempt} (ha : a ∈ cf.attempts) (hb : b ∈ cf.attempts)
    (hsa : a.status = .succeeded) (hsb : b.status = .succeeded) : a = b := by
  have hretried : ∀ {x : JobAttempt}, Retried x → x.status ≠ .succeeded := by
    rintro x (hx | hx | hx) hs <;> rw [hx] at hs <;> cases hs
  cases h with
  | waiting status waits => exact absurd hsa (hretried (waits.retried a ha))
  | executing past pastLeases c m run =>
    have hc : ∀ x ∈ cf.attempts, x.status ≠ .succeeded := by
      intro x hx hs
      rw [run.attempts, List.mem_append, List.mem_singleton] at hx
      rcases hx with hpast | rfl
      · exact hretried (run.retried x hpast) hs
      · have hopen := run.open_.attempt
        rw [hs] at hopen
        cases hopen
    exact absurd hsa (hc a ha)
  | ended history final room =>
    cases final with
    | succeeded status past c attempts retried last dlq results =>
      have hlast : ∀ x ∈ cf.attempts, x.status = .succeeded → x = c := by
        intro x hx hs
        rw [attempts, List.mem_append, List.mem_singleton] at hx
        rcases hx with hpast | hx
        · exact absurd hs (hretried (retried x hpast))
        · exact hx
      rw [hlast a ha hsa, hlast b hb hsb]
    | canceled status closed dlq results =>
      rcases closed a ha with hx | hx
      · exact absurd hsa (hretried hx)
      · rw [hx] at hsa
        cases hsa
    | dead status past c e attempts retried last dlq entry results =>
      rw [attempts, List.mem_append, List.mem_singleton] at ha
      rcases ha with hpast | rfl
      · exact absurd hsa (hretried (retried a hpast))
      · exact absurd hsa (hretried last)

/-- The first success report of a job is stored as it was made. -/
theorem Step.report_stored (hs : Step w l w')
    (hcall : l.request.call = .succeed scope fence (some ref)) (hans : l.outcome = .ok ans)
    (hfirst : ∀ j ∈ w.db.jobs.rows, j.id = fence.jobID → j.status ≠ .succeeded) :
    resultRow l.request.env.clock.start scope fence.jobID fence.attemptID ref
      ∈ w'.db.results.rows := by
  obtain ⟨u, hrun⟩ := hs.succeeded hcall hans
  obtain ⟨s, j, a, m, hA, ⟨hdone, -⟩ | ⟨-, happ⟩⟩ := succeed_eq_ok hrun
  · exact absurd hdone (hfirst j hA.job_mem hA.job_id)
  · rw [happ.results, ← hA.job_id, ← hA.attempt_id]
    exact List.mem_concat_self

/-- **The report decides.** After the first success report of a job, what is fetched
for the job is its own object exactly if the report named it. -/
theorem Step.report_decides (hs : Step w l w') (hsound : Sound w)
    (hcall : l.request.call = .succeed scope fence (some ref)) (hans : l.outcome = .ok ans)
    (hobject : ref.location = .object)
    (hfirst : ∀ j ∈ w.db.jobs.rows, j.id = fence.jobID → j.status ≠ .succeeded) :
    (∀ server response b k,
      handleGetJobResult server w'.db (some scope) (some fence.jobID) = (response, some (b, k)) →
        OwnObject bucket w'.db scope fence.jobID b k) ↔
      ref.bucket = bucket ∧ ref.key = resultKey scope fence.jobID fence.attemptID := by
  have hmem := hs.report_stored hcall hans hfirst
  have hsound' := hs.sound hsound
  obtain ⟨hbucket, hkey⟩ := resultRow_object hmem hobject
  obtain ⟨j, hj, hjid, -, a, ha, haid, hajob, hstatus⟩ := hsound'.exactEnds.result _ hmem
  have hafile : a ∈ (w'.db.caseFile j.id).attempts := mem_caseFile_attempts.mpr ⟨ha, hajob⟩
  constructor
  · intro hown
    -- Ask a store that has something under every name.
    have hget : handleGetJobResult ⟨true, some fun _ _ => some ""⟩ w'.db (some scope)
        (some fence.jobID) = (.served "", some (_, _)) :=
      handleGetJobResult_of_object hmem hobject rfl
    rw [hbucket, hkey] at hget
    obtain ⟨hb, c, hc, hcjob, hcstatus, hk⟩ := hown _ _ _ _ hget
    have hcfile : c ∈ (w'.db.caseFile j.id).attempts :=
      mem_caseFile_attempts.mpr ⟨hc, hcjob.trans hjid.symm⟩
    have hca : c = a := (hsound'.phase hj).succeeded_unique hcfile hafile hcstatus hstatus
    refine ⟨hb, ?_⟩
    rw [hca, haid] at hk
    exact hk
  · rintro ⟨hb, hk⟩ server response b k hget
    obtain ⟨scope', id', hscope, hid, r, hr, hjob, hrscope, -, rfl, rfl⟩ :=
      handleGetJobResult_fetched hget
    cases hscope
    cases hid
    have hclash : results.clash r (resultRow l.request.env.clock.start scope fence.jobID
        fence.attemptID ref) = true :=
      sameKey_eq_true.mpr ⟨fence.jobID, congrArg some hjob, rfl⟩
    rw [w'.db.results.eq_of_clash hr hmem hclash, hbucket, hkey]
    refine ⟨hb, a, ha, hajob.trans hjid, hstatus, ?_⟩
    rw [haid]
    exact hk

end Served

/-- **Object results stay inside their scope, if the reports name their own.** In every
run whose accepted success reports name the configured bucket and their own key, a
result answered from the object store is the object of the job that is read and its
succeeding attempt, and under no other scope's key. And this is what it takes: after
the first success report of a job, the job's own object is fetched exactly if the
report named it. -/
theorem object_results_confined (bucket : String) :
    (∀ (w₀ w : World) (trace : List Label), Initial w₀ → Execution w₀ trace w →
      (∀ l ∈ trace, l.ReportsOwn bucket) →
      ∀ (server : ResultServer) (scope : String) (id : UUID) (body b k : String),
        handleGetJobResult server w.db (some scope) (some id) = (.served body, some (b, k)) →
        OwnObject bucket w.db scope id b k ∧
          ∀ scope' job attempt, k = resultKey scope' job attempt → scope' = scope) ∧
    ∀ (w w' : World) (l : Label) (scope : String) (fence : Fence) (ref : ResultRef) (ans : Answer),
      Reachable w → Step w l w' → l.request.call = .succeed scope fence (some ref) →
      l.outcome = .ok ans → ref.location = .object →
      (∀ j ∈ w.db.jobs.rows, j.id = fence.jobID → j.status ≠ .succeeded) →
      ((∀ server response b k,
        handleGetJobResult server w'.db (some scope) (some fence.jobID) = (response, some (b, k)) →
          OwnObject bucket w'.db scope fence.jobID b k) ↔
        ref.bucket = bucket ∧ ref.key = resultKey scope fence.jobID fence.attemptID) := by
  refine ⟨?_, fun w w' l scope fence ref ans hw hs hcall hans hobject hfirst =>
    hs.report_decides hw.sound hcall hans hobject hfirst⟩
  intro w₀ w trace hinit hrun hreports server scope id body b k hget
  have hrows : RowsOwn bucket w.db :=
    (hrun.restrict hreports).invariant (P := fun v => RowsOwn bucket v.db)
      (fun hI hstep => hstep.1.rowsOwn hstep.2 hI) hinit.rowsOwn
  have hown := hrows.fetched (Reachable.sound ⟨w₀, trace, hinit, hrun⟩) hget
  refine ⟨hown, fun scope' job attempt hkey => ?_⟩
  obtain ⟨a, -, -, -, hk⟩ := hown.key_eq
  exact (resultKey_scope (hk.symm.trans hkey)).symm

/-- The success report of the running attempt, with a result under `key`. -/
def sampleUpload (key : String) : ResultRef :=
  ⟨.object, none, "results", key, 6, "0123456789abcdef0123456789abcdef0123456789abcdef0123456789abcdef"⟩

def sampleUploaded (key : String) : Request :=
  ⟨envAt 5 0 0, .succeed "tenant" sampleFence (some (sampleUpload key))⟩

/-- A report that names its own object, and what is then fetched; and a report that
names another tenant's, for which the condition fails. -/
theorem object_results_confined_sample :
    OwnObject "results" (quiet.exec (sampleStart ++ [sampleUploaded (resultKey "tenant" 2 4)])).2.db
      "tenant" 2 "results" (resultKey "tenant" 2 4) ∧
    ((∀ server response b k,
      handleGetJobResult server
        ((quiet.exec sampleStart).2.step (sampleUploaded (resultKey "neighbour" 9 10))).2.db
        (some "tenant") (some 2) = (response, some (b, k)) →
      OwnObject "results"
        ((quiet.exec sampleStart).2.step (sampleUploaded (resultKey "neighbour" 9 10))).2.db
        "tenant" 2 b k) ↔
      "results" = "results" ∧ resultKey "neighbour" 9 10 = resultKey "tenant" 2 4) := by
  obtain ⟨hfetched, hclock, hout, hfirst⟩ :
      handleGetJobResult ⟨true, some fun _ _ => some "\"done\""⟩
        (quiet.exec (sampleStart ++ [sampleUploaded (resultKey "tenant" 2 4)])).2.db
        (some "tenant") (some 2) =
          (.served "\"done\"", some ("results", resultKey "tenant" 2 4)) ∧
      (quiet.exec sampleStart).2.clock ≤ 5 ∧
      ((quiet.exec sampleStart).2.step (sampleUploaded (resultKey "neighbour" 9 10))).1.outcome =
        .ok .succeeded ∧
      ∀ j ∈ (quiet.exec sampleStart).2.db.jobs.rows, j.id = 2 → j.status ≠ .succeeded := by
    decide +kernel
  constructor
  · refine ((object_results_confined "results").1 quiet _
      (quiet.exec (sampleStart ++ [sampleUploaded (resultKey "tenant" 2 4)])).1 quiet_initial
      (World.exec_run (by decide)) ?_ ⟨true, some fun _ _ => some "\"done\""⟩ "tenant" 2 "\"done\"" _ _
      hfetched).1
    intro l hl scope fence ref ans hcall _ _
    have hreq := World.mem_exec_requests hl
    simp only [sampleStart, List.cons_append, List.nil_append, List.mem_cons, List.not_mem_nil,
      or_false] at hreq
    rcases hreq with hreq | hreq | hreq | hreq | hreq <;> rw [hreq] at hcall <;> cases hcall
    exact ⟨rfl, rfl⟩
  · exact (object_results_confined "results").2 (quiet.exec sampleStart).2 _
      ((quiet.exec sampleStart).2.step (sampleUploaded (resultKey "neighbour" 9 10))).1 "tenant"
      sampleFence (sampleUpload (resultKey "neighbour" 9 10)) .succeeded
      (quiet_reachable (by decide))
      (@World.step_step _ (sampleUploaded (resultKey "neighbour" 9 10)) hclock)
      (by rw [World.step_request]; rfl) hout rfl hfirst

/-- A report that the API accepts, naming an object of another tenant: the API then
serves that object to the tenant. -/
theorem foreign_object_served :
    parseResultPayload (some ⟨"object", none, "results", resultKey "neighbour" 9 10, 6,
      "0123456789abcdef0123456789abcdef0123456789abcdef0123456789abcdef"⟩)
      = .ok (some (sampleUpload (resultKey "neighbour" 9 10))) ∧
    Reachable (quiet.exec (sampleStart ++ [sampleUploaded (resultKey "neighbour" 9 10)])).2 ∧
    handleGetJobResult
      ⟨true, some fun b k =>
        if b = "results" ∧ k = resultKey "neighbour" 9 10 then some "\"word\"" else none⟩
      (quiet.exec (sampleStart ++ [sampleUploaded (resultKey "neighbour" 9 10)])).2.db
      (some "tenant") (some 2)
      = (.served "\"word\"", some ("results", resultKey "neighbour" 9 10)) ∧
    resultKey "neighbour" 9 10 ≠ resultKey "tenant" 2 4 :=
  ⟨rfl, quiet_reachable (by decide), by decide +kernel⟩

end TaskForge
