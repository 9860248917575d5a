/-
From the text of a submission to the request that is stored: `CanonicalJSON`
(`internal/jobs/canonical.go`) and `SubmitRequest.Normalize` (`internal/jobs/submit.go`).

Text is a sequence of characters; a byte of a body that is no UTF-8 is read by Go's
decoder as U+FFFD, so a body is given here as it is read. The wording of the JSON
decoder's own errors is a parameter (`explain`): nothing depends on it.
-/
import TaskForge.Calendar
import TaskForge.Json.Fields
import TaskForge.Json.Maps
import TaskForge.Config
import TaskForge.Requests

open Json

namespace TaskForge

/-! ## Canonical JSON -/

/-- The nesting `encoding/json` accepts. -/
def maxNestingDepth : ℕ := 10000

/-- `json.Decoder.More`, at the top level of a text. -/
def decoderMore (rest : Text) : Bool :=
  match skipBlanks rest with
  | [] => false
  | c :: _ => c != ']' && c != '\x7d'

/-- The document as `any` holds it, objects as maps. -/
def decodedTree (v : Value) : Value := rebuild id bytewise v

/-- `writeCanonical` -/
def writeCanonical (v : Value) : Text := encode (goStyle false) (decodedTree v)

/-- `CanonicalJSON` -/
def canonicalJSON (explain : Text → String) (raw : Text) : Except String Text :=
  match read maxNestingDepth raw with
  | none => .error ("decode json: " ++ explain raw)
  | some (v, rest) =>
    if decoderMore rest then .error "unexpected trailing content after json value"
    else .ok (writeCanonical v)

/-! ## Normalization -/

/-- `jobs.SubmitRequest`. An absent payload is the empty text. -/
structure SubmitRequest where
  queue : String
  type_ : String
  payload : Text
  priority : Option Int
  maxAttempts : Option Int
  timeoutSeconds : Option Int
  scheduledAt : Option String
  requiredCapabilities : List String
deriving DecidableEq, Repr

def defaultPriority : Int := 50
def defaultMaxAttempts : Int := 3
def defaultTimeoutSeconds : Int := 300
def maxCapabilities : ℕ := 16

/-- The check of a queue name and of a job type. -/
def nameProblems (field : String) (tail : ℕ) (pattern s : String) : List FieldError :=
  if s = "" then [⟨field, "is required"⟩]
  else mustHold (matchesName tail s) field ("must match " ++ pattern)

/-- The payload as it is stored, or what is wrong with it. -/
def normalizePayload (explain : Text → String) (raw : Text) : Except FieldError Text :=
  if raw = [] then .error ⟨"payload", "is required"⟩
  else match canonicalJSON explain raw with
    | .error e => .error ⟨"payload", "must be valid JSON: " ++ e⟩
    | .ok canonical =>
      if canonical.head? = some '\x7b' then .ok canonical
      else .error ⟨"payload", "must be a JSON object"⟩

/-- The instant a caller asked for, or what is wrong with it. -/
def normalizeSchedule : Option String → Except FieldError (Option Int)
  | none => .ok none
  | some s =>
    match Calendar.parseRFC3339 (trimSpace s).toList with
    | some instant => .ok (some instant)
    | none => .error
        ⟨"scheduled_at", "must be an RFC 3339 timestamp, for example 2026-09-01T12:00:00Z"⟩

/-- The check of an optional number, made when the caller gave one. -/
def boundProblems (field message : String) (lo hi : Int) (given : Option Int) : List FieldError :=
  given.elim [] fun n => mustHold (between lo hi n) field message

/-- What `normalizeCapabilities` reports. -/
def capabilityProblems (given : List String) : List FieldError :=
  if maxCapabilities < given.length then
    [⟨"required_capabilities", "must contain at most 16 entries"⟩]
  else given.zipIdx.flatMap fun c =>
    mustHold (matchesName 63 (trimSpace c.1)) ("required_capabilities[" ++ toString c.2 ++ "]")
      ("must match " ++ namePattern63)

/-- What `normalizeCapabilities` returns: the accepted names, each once, sorted. -/
def normalizeCapabilities (given : List String) : List String :=
  if maxCapabilities < given.length then []
  else (((given.map trimSpace).filter (matchesName 63)).dedup).insertionSort (· ≤ ·)

/-- The error, if there is one. -/
def errorOf {α : Type} : Except FieldError α → List FieldError
  | .error e => [e]
  | .ok _ => []

/-- `SubmitRequest.Normalize` -/
def SubmitRequest.normalize (explain : Text → String) (r : SubmitRequest) :
    Except (List FieldError) NormalizedRequest :=
  let queue := trimSpace r.queue
  let type_ := trimSpace r.type_
  let fields :=
    nameProblems "queue" 63 namePattern63 queue ++
    nameProblems "job_type" 127 namePattern127 type_ ++
    errorOf (normalizePayload explain r.payload) ++
    boundProblems "priority" "must be between 0 and 100" 0 100 r.priority ++
    boundProblems "max_attempts" "must be between 1 and 100 (it counts the first attempt)" 1 100
      r.maxAttempts ++
    boundProblems "timeout_seconds" "must be between 1 and 86400" 1 86400 r.timeoutSeconds ++
    errorOf (normalizeSchedule r.scheduledAt) ++
    capabilityProblems r.requiredCapabilities
  match fields, normalizePayload explain r.payload, normalizeSchedule r.scheduledAt with
  | [], .ok payload, .ok scheduledAt => .ok
    { queue := queue
      type_ := type_
      payload := String.ofList payload
      priority := r.priority.getD defaultPriority
      maxAttempts := r.maxAttempts.getD defaultMaxAttempts
      timeoutSeconds := r.timeoutSeconds.getD defaultTimeoutSeconds
      requiredCapabilities := normalizeCapabilities r.requiredCapabilities
      scheduledAt := scheduledAt }
  | fields, _, _ => .error fields

/-! ## What acceptance means -/

section Accepted

variable {explain : Text → String}
variable {v : Value} {raw canonical : Text} {r : SubmitRequest} {out : NormalizedRequest}

/-- The text is an object in canonical spelling, nested no deeper than a decoder
allows. -/
structure CanonicalObject (t : Text) (members : List (Text × Value)) : Prop where
  text : t = encode (goStyle false) (.object members)
  within : (Value.object members).Within maxNestingDepth

theorem rebuild_id_within {depth : ℕ} (hv : v.Within depth) :
    (decodedTree v).Within depth := rebuild_within hv fun _ _ h => h

/-- Only an object is printed with a brace in front. -/
theorem object_of_encode_head {style : Style} (hv : v.WellFormed)
    (h : (encode style v).head? = some '\x7b') : ∃ members, v = .object members := by
  cases v with
  | object members => exact ⟨members, rfl⟩
  | null => cases h
  | bool b => cases b <;> cases h
  | string | array => cases h
  | number literal =>
    have hnumber := hv literal (List.mem_singleton.mpr rfl)
    obtain ⟨c, r, rfl, hc⟩ := (scanNumber_eq_some.mp hnumber).2.head
    cases h
    exact absurd hc (by decide)

/-- An accepted payload is stored as the canonical print of the document it begins with. -/
theorem normalizePayload_reads (h : normalizePayload explain raw = .ok canonical) :
    ∃ v rest, read maxNestingDepth raw = some (v, rest) ∧ canonical = writeCanonical v ∧
      canonical.head? = some '\x7b' := by
  unfold normalizePayload canonicalJSON at h
  split_ifs at h
  cases hread : read maxNestingDepth raw with
  | none => rw [hread] at h; cases h
  | some p =>
    rw [hread] at h
    simp only at h
    split_ifs at h with hmore
    simp only at h
    split_ifs at h with hhead
    cases h
    exact ⟨p.1, p.2, rfl, rfl, hhead⟩

theorem normalizePayload_eq_ok (h : normalizePayload explain raw = .ok canonical) :
    ∃ members, CanonicalObject canonical members := by
  obtain ⟨v, rest, hread, rfl, hhead⟩ := normalizePayload_reads h
  have hwithin := rebuild_id_within (read_sound hread)
  obtain ⟨members, hmembers⟩ := object_of_encode_head hwithin.1 hhead
  exact ⟨members, by rw [writeCanonical, hmembers], hmembers ▸ hwithin⟩

/-- An accepted schedule is the instant its text names. -/
theorem normalizeSchedule_eq_ok {given : Option String} {t : Int}
    (h : normalizeSchedule given = .ok (some t)) :
    ∃ s, given = some s ∧ Calendar.parseRFC3339 (trimSpace s).toList = some t := by
  unfold normalizeSchedule at h
  split at h
  · cases h
  · next s =>
    refine ⟨s, rfl, ?_⟩
    split at h
    next instant hparse => cases h; exact hparse
    · cases h

/-- What `Normalize` promises of a request it accepts. -/
structure Normalized (explain : Text → String) (r : SubmitRequest) (out : NormalizedRequest) :
    Prop where
  queue : matchesName 63 out.queue = true
  type_ : matchesName 127 out.type_ = true
  payload : normalizePayload explain r.payload = .ok out.payload.toList
  priority : between 0 100 out.priority = true
  maxAttempts : between 1 100 out.maxAttempts = true
  timeoutSeconds : between 1 86400 out.timeoutSeconds = true
  schedule : normalizeSchedule r.scheduledAt = .ok out.scheduledAt
  capabilities : ∀ c ∈ out.requiredCapabilities, matchesName 63 c = true

theorem nameProblems_eq_nil {field pattern s : String} {tail : ℕ}
    (h : nameProblems field tail pattern s = []) : matchesName tail s = true := by
  unfold nameProblems at h
  split_ifs at h
  exact mustHold_eq_nil.mp h

theorem boundProblems_eq_nil {field message : String} {lo hi : Int} {given : Option Int}
    (h : boundProblems field message lo hi given = []) {n : Int} (hn : between lo hi n = true) :
    between lo hi (given.getD n) = true := by
  cases given with
  | none => exact hn
  | some m => exact mustHold_eq_nil.mp h

theorem mem_normalizeCapabilities {given : List String} {c : String}
    (h : c ∈ normalizeCapabilities given) : matchesName 63 c = true := by
  unfold normalizeCapabilities at h
  split_ifs at h
  · cases h
  · rw [List.mem_insertionSort, List.mem_dedup, List.mem_filter] at h
    exact h.2

theorem normalize_eq_ok (h : r.normalize explain = .ok out) : Normalized explain r out := by
  unfold SubmitRequest.normalize at h
  simp only at h
  split at h
  next hfields hpayload hschedule =>
    simp only [List.append_eq_nil_iff] at hfields
    obtain ⟨⟨⟨⟨⟨⟨⟨hqueue, htype⟩, -⟩, hpriority⟩, hattempts⟩, htimeout⟩, -⟩, -⟩ := hfields
    cases h
    exact
      { queue := nameProblems_eq_nil hqueue
        type_ := nameProblems_eq_nil htype
        payload := by rw [hpayload, String.toList_ofList]
        priority := boundProblems_eq_nil hpriority (by decide)
        maxAttempts := boundProblems_eq_nil hattempts (by decide)
        timeoutSeconds := boundProblems_eq_nil htimeout (by decide)
        schedule := hschedule
        capabilities := fun c hc => mem_normalizeCapabilities hc }
  · cases h

/-- What an accepted request is normalised to: names trimmed, defaults filled in, the
capabilities as a set, none of them refused. -/
structure FilledIn (r : SubmitRequest) (out : NormalizedRequest) : Prop where
  queue : out.queue = trimSpace r.queue
  type_ : out.type_ = trimSpace r.type_
  priority : out.priority = r.priority.getD defaultPriority
  maxAttempts : out.maxAttempts = r.maxAttempts.getD defaultMaxAttempts
  timeoutSeconds : out.timeoutSeconds = r.timeoutSeconds.getD defaultTimeoutSeconds
  capabilities : out.requiredCapabilities = normalizeCapabilities r.requiredCapabilities
  accepted : capabilityProblems r.requiredCapabilities = []

theorem normalize_filledIn (h : r.normalize explain = .ok out) : FilledIn r out := by
  unfold SubmitRequest.normalize at h
  simp only at h
  split at h
  next hfields _ _ =>
    simp only [List.append_eq_nil_iff] at hfields
    cases h
    exact ⟨rfl, rfl, rfl, rfl, rfl, rfl, hfields.2⟩
  · cases h

end Accepted

end TaskForge
