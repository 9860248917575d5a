/-
Whether an inline result can be reported.

`Validate` keeps the inline threshold below `MaxRequestBytes`, because an inline result
travels inside the success report and the control plane reads no more than that of a
body. What is compared is the handler's output as it came. What is sent is the output
compacted, with `<`, `>`, `&` and the line separators as six bytes each, inside an
envelope of four identifiers and three field names, two levels down; an encoder that
would pass its nesting limit there sends nothing. So a report is sent and fits exactly
when envelope, digits of the size and compacted output fit and the output leaves two
levels free (`inline_report_fits_iff`), and the default configuration calls outputs inline
whose report it refuses (`inline_report_too_large`).
-/
import TaskForge.Permanence
import TaskForge.Wire

open Relational Fallible Json

namespace TaskForge

/-! ## What the client sends -/

/-- `string(result.Location)` -/
def Location.word : Location → String
  | .inline => "inline"
  | .object => "object"
  | .other word => word

/-- `toResultPayload` -/
def toResultPayload : Option ResultRef → Option ResultPayload :=
  Option.map fun r => ⟨r.location.word, r.inline, r.bucket, r.key, r.sizeBytes, r.checksum⟩

/-- `json.Valid`: one document, and nothing but blanks around it. -/
def validJSON (output : String) : Bool :=
  (read maxNestingDepth output.toList).any fun p => skipBlanks p.2 == []

/-- A field of a string that is left out when it is empty. -/
def omitEmpty (name : String) (s : String) : List (Text × Text) :=
  if s = "" then [] else [(name.toList, encode wire (stringValue s))]

/-- `json.RawMessage` inside `outer` objects, left out when it is empty; none if it cannot
be written there. -/
def omitEmptyRaw (outer : ℕ) (name : String) : Option String → Option (List (Text × Text))
  | none => some []
  | some raw =>
    if raw = "" then some []
    else if encodableAt outer raw.toList then some [(name.toList, compact true raw.toList)] else none

/-- The text of a `resultPayload`, a field of a report; none if it cannot be encoded. -/
def resultPayloadText (p : ResultPayload) : Option Text :=
  (omitEmptyRaw 2 "inline_body" p.inlineBody).map fun inline => objectText wire
    ([("location".toList, encode wire (stringValue p.location))] ++ inline ++
      omitEmpty "object_bucket" p.objectBucket ++ omitEmpty "object_key" p.objectKey ++
      [("size_bytes".toList, encode wire (intValue p.sizeBytes))] ++
      omitEmpty "checksum_sha256" p.checksumSHA256)

/-- The fence's part of a report. -/
def fenceFields (fence : Fence) : List (Text × Text) :=
  [("job_id".toList, encode wire (stringValue (uuidString fence.jobID))),
    ("lease_id".toList, encode wire (stringValue (uuidString fence.leaseID))),
    ("worker_id".toList, encode wire (stringValue (uuidString fence.workerID))),
    ("worker_session_id".toList, encode wire (stringValue (uuidString fence.sessionID)))]

/-- The body `Client.Succeed` sends. -/
def succeedBody (fence : Fence) (result : Option ResultRef) : Option Text :=
  match toResultPayload result with
  | none => some (objectText wire (fenceFields fence))
  | some p => (resultPayloadText p).map fun t =>
    objectText wire (fenceFields fence ++ [("result".toList, t)])

/-- The control plane reads no more of a body than its limit. -/
def refusedForSize (cfg : Config) (body : Text) : Prop := cfg.maxRequestBytes < octets body

/-! ## Its size -/

section Sizes

theorem octets_numericEscape {c : Char} (h : c.toNat < 65536) : octets (numericEscape c) = 6 := by
  have hdigit : ∀ d : Fin 16, (hexDigit d).utf8Size = 1 := by decide
  have hmark : ('\x5c').utf8Size = 1 ∧ ('u').utf8Size = 1 := by decide
  simp only [numericEscape, octets_cons, octets_nil, hmark, hdigit ⟨c.toNat / 4096, by omega⟩,
    hdigit ⟨c.toNat / 256 % 16, by omega⟩, hdigit ⟨c.toNat / 16 % 16, by omega⟩,
    hdigit ⟨c.toNat % 16, by omega⟩]

/-- Escaping makes a text at most six times as long. -/
theorem octets_compact_le (html : Bool) (t : Text) : octets (compact html t) ≤ 6 * octets t := by
  have key : ∀ mode, octets (compactFrom (goExtra html) mode t) ≤ 6 * octets t := by
    induction t with
    | nil => exact fun mode => le_rfl
    | cons c t ih =>
      intro mode
      have hsize : 1 ≤ c.utf8Size := c.utf8Size_pos
      rw [compactFrom, octets_cons]
      split_ifs with hblank hextra
      · have := ih mode
        omega
      · have := ih (mode.next c)
        rw [octets_append, octets_numericEscape (goExtra_lt hextra)]
        omega
      · have := ih (mode.next c)
        rw [octets_append, octets_cons, octets_nil]
        omega
  exact key .plain

theorem octets_toList (s : String) : octets s.toList = octetLength s := by
  have key : ∀ t : Text, octets t = String.utf8Len t := by
    intro t
    induction t with
    | nil => simp
    | cons c t ih => rw [octets_cons, String.utf8Len_cons, ih, Nat.add_comm]
  rw [key, octetLength, ← String.utf8ByteSize_ofList, String.ofList_toList]

theorem octetLength_pos {s : String} (h : s ≠ "") : 0 < octetLength s := by
  rw [← octets_toList]
  cases hs : s.toList with
  | nil => exact absurd (String.toList_eq_nil_iff.mp hs) h
  | cons c t =>
    have := c.utf8Size_pos
    rw [octets_cons]
    omega

/-- A number has no more digits than it counts. -/
theorem octets_intText_le {n : ℕ} (h : 0 < n) : octets (intText n) ≤ n := by
  have hsize : ∀ t : Text, (∀ c ∈ t, isDigit c = true) → octets t = t.length := by
    intro t
    induction t with
    | nil => exact fun _ => rfl
    | cons c t ih =>
      intro hall
      obtain ⟨d, rfl⟩ := exists_of_isDigit (hall c List.mem_cons_self)
      have hone : ∀ d : Fin 10, (Char.ofNat (48 + d)).utf8Size = 1 := by decide
      rw [octets_cons, hone, ih fun e he => hall e (List.mem_cons_of_mem _ he), List.length_cons]
      omega
  show octets (Nat.toDigits 10 n) ≤ n
  rw [hsize _ fun c hc => isDigit_of_mem_toDigits hc]
  exact (Nat.length_toDigits_le_iff (by decide) h).mpr (Nat.lt_pow_self (by decide))

/-- The bytes of an inline report around its output: 269 of names, marks and
identifiers, and the decimal digits of the output's size. -/
def reportEnvelope (output : String) : ℕ := 269 + octets (intText (octetLength output))

/-- How deep the output is nested. -/
def nesting (output : String) : ℕ :=
  ((read maxNestingDepth output.toList).map fun p => p.1.depth).getD 0

/-- The output leaves two levels of nesting free, and envelope and compacted output are
within the limit. -/
def ReportFits (cfg : Config) (output : String) : Prop :=
  nesting output + 2 ≤ maxNestingDepth ∧
    (reportEnvelope output : Int) + octets (compact true output.toList) ≤ cfg.maxRequestBytes

theorem encodableAt_iff {output : String} (hvalid : validJSON output = true) :
    encodableAt 2 output.toList = true ↔ nesting output + 2 ≤ maxNestingDepth := by
  obtain ⟨p, hread, hrest⟩ := (Option.any_eq_true _ _).mp hvalid
  have hnesting : nesting output = p.1.depth := by rw [nesting, hread, Option.map_some, Option.getD]
  rw [hnesting, encodableAt, Option.any_eq_true]
  constructor
  · rintro ⟨p', hread', -⟩
    obtain rfl : p' = p := Option.some.inj ((read_mono hread' (by omega)).symm.trans hread)
    have hdepth := (read_sound hread').2
    unfold maxNestingDepth at hdepth ⊢
    omega
  · intro hdepth
    exact ⟨p, read_of_depth hread (by omega), hrest⟩

theorem octets_quote_plain {escape : Char → Text} {t : Text}
    (h : ∀ c ∈ t, escape c = [c] ∧ c.utf8Size = 1) : octets (quote escape t) = t.length + 2 := by
  have hinside : octets (t.flatMap escape) = t.length := by
    induction t with
    | nil => rfl
    | cons c t ih =>
      obtain ⟨hc, hsize⟩ := h c List.mem_cons_self
      rw [List.flatMap_cons, octets_append, ih fun d hd => h d (List.mem_cons_of_mem c hd), hc,
        octets_cons, hsize, octets_nil, List.length_cons]
      omega
  have hmark : ('\x22').utf8Size = 1 := by decide
  rw [quote, octets_cons, octets_append, octets_cons, octets_nil, hinside, hmark]
  omega

theorem octets_uuid (u : UUID) : octets (encode wire (stringValue (uuidString u))) = 38 := by
  have hdigit : ∀ d : Fin 16, wire.escape (Nat.digitChar d) = [Nat.digitChar d] ∧
      (Nat.digitChar d).utf8Size = 1 := by decide +kernel
  have hchar : ∀ c ∈ hexDigits u, wire.escape c = [c] ∧ c.utf8Size = 1 := by
    intro c hc
    obtain ⟨i, -, rfl⟩ := List.mem_map.mp hc
    exact hdigit ⟨_, Nat.mod_lt _ (by decide)⟩
  have hdash : wire.escape '-' = ['-'] ∧ ('-').utf8Size = 1 := by decide +kernel
  have hlength := hexDigits_length u
  have htext : (uuidString u).toList = (hexDigits u).take 8 ++ '-' :: ((hexDigits u).drop 8).take 4 ++
      '-' :: ((hexDigits u).drop 12).take 4 ++ '-' :: ((hexDigits u).drop 16).take 4 ++
      '-' :: (hexDigits u).drop 20 := by
    rw [uuidString, String.toList_ofList]
  rw [stringValue, encode, octets_quote_plain, htext]
  · simp only [List.length_append, List.length_cons, List.length_take, List.length_drop, hlength]
    decide
  · rw [htext]
    intro c hc
    simp only [List.mem_append, List.mem_cons] at hc
    rcases hc with (((hc | rfl | hc) | rfl | hc) | rfl | hc) | rfl | hc
    · exact hchar c (List.mem_of_mem_take hc)
    · exact hdash
    · exact hchar c (List.mem_of_mem_drop (List.mem_of_mem_take hc))
    · exact hdash
    · exact hchar c (List.mem_of_mem_drop (List.mem_of_mem_take hc))
    · exact hdash
    · exact hchar c (List.mem_of_mem_drop (List.mem_of_mem_take hc))
    · exact hdash
    · exact hchar c (List.mem_of_mem_drop hc)

/-- The report of an inline result. -/
def inlineRef (output : String) : ResultRef :=
  ⟨.inline, some output, "", "", octetLength output, ""⟩

theorem classify_inline {output : String} {threshold : ℕ}
    (h : classify output threshold = .inline) : octetLength output < threshold := by
  unfold classify at h
  split_ifs at h with hlarge
  omega

theorem prepareResult_inline {worker : ResultConfig} {fence : Fence} {scope output : String}
    (hne : output ≠ "") (h : classify output worker.resultInlineThresholdBytes = .inline) :
    prepareResult worker fence scope output = some (some (inlineRef output)) := by
  rw [prepareResult, if_neg hne, if_pos h]
  rfl

theorem succeedBody_inline (fence : Fence) {output : String} (hne : output ≠ "")
    (hencodable : encodableAt 2 output.toList = true) :
    ∃ body, succeedBody fence (some (inlineRef output)) = some body ∧
      octets body = reportEnvelope output + octets (compact true output.toList) := by
  have hbody : succeedBody fence (some (inlineRef output)) = some (objectText wire
      (fenceFields fence ++ [("result".toList, objectText wire
        [("location".toList, encode wire (stringValue "inline")),
          ("inline_body".toList, compact true output.toList),
          ("size_bytes".toList, intText (octetLength output))])])) := by
    simp only [succeedBody, toResultPayload, Option.map_some, resultPayloadText, omitEmptyRaw,
      inlineRef, hne, hencodable, if_false, if_true, omitEmpty]
    rfl
  refine ⟨_, hbody, ?_⟩
  have hlocation : octets (encode wire (stringValue "inline")) = 8 := by decide +kernel
  have hframes : frame wire ["job_id".toList, "lease_id".toList, "worker_id".toList,
        "worker_session_id".toList, "result".toList] = 67 ∧
      frame wire ["location".toList, "inline_body".toList, "size_bytes".toList] = 42 := by
    decide +kernel
  simp only [reportEnvelope, octets_objectText, fenceFields, List.cons_append, List.nil_append,
    List.map_cons, List.map_nil, List.sum_cons, List.sum_nil, octets_uuid, hlocation, hframes]
  omega

/-- A report that cannot be encoded is not sent. -/
theorem succeedBody_unsent (fence : Fence) {output : String} (hne : output ≠ "")
    (hdeep : ¬ encodableAt 2 output.toList = true) :
    succeedBody fence (some (inlineRef output)) = none := by
  simp only [succeedBody, toResultPayload, Option.map_some, resultPayloadText, omitEmptyRaw,
    inlineRef, hne, hdeep, if_false, Bool.false_eq_true]
  rfl

end Sizes

/-! ## When it fits -/

section Reports

variable {cfg : Config} {worker : ResultConfig} {fence : Fence} {scope output : String}

/-- **Inline results in their reports.** A valid output that is classified as inline is
reported inline. A body is sent for it that is within `MaxRequestBytes`, so that the control
plane does not refuse it for its size, exactly when the output leaves two levels of nesting
free and envelope and compacted output are within the limit. -/
theorem inline_report_fits_iff (hne : output ≠ "") (hvalid : validJSON output = true)
    (hthreshold : worker.resultInlineThresholdBytes = cfg.resultInlineThresholdBytes)
    (hinline : classify output worker.resultInlineThresholdBytes = .inline) :
    (octetLength output : Int) < cfg.resultInlineThresholdBytes ∧
    ∃ ref, prepareResult worker fence scope output = some (some ref) ∧
      ((∃ body, succeedBody fence (some ref) = some body ∧ (octets body : Int) ≤ cfg.maxRequestBytes) ↔
        ReportFits cfg output) ∧
      ((∃ body, succeedBody fence (some ref) = some body ∧ ¬ refusedForSize cfg body) ↔
        ReportFits cfg output) := by
  have hsmall := classify_inline hinline
  have hfits : (∃ body, succeedBody fence (some (inlineRef output)) = some body ∧
      (octets body : Int) ≤ cfg.maxRequestBytes) ↔ ReportFits cfg output := by
    rw [ReportFits, ← encodableAt_iff hvalid]
    by_cases hencodable : encodableAt 2 output.toList = true
    · obtain ⟨body, hbody, hsize⟩ := succeedBody_inline fence hne hencodable
      simp only [hbody, Option.some.injEq, exists_eq_left', hsize, Nat.cast_add, hencodable, true_and]
    · simp only [succeedBody_unsent fence hne hencodable, hencodable, reduceCtorEq, false_and,
        exists_false]
  refine ⟨by omega, inlineRef output, prepareResult_inline hne hinline, hfits, ?_⟩
  simp only [refusedForSize, not_lt]
  exact hfits

/-- A threshold that leaves room for seven bytes of each of the output's is safe, for
outputs that leave two levels of nesting free. -/
theorem inline_report_fits_of_threshold (hne : output ≠ "") (hvalid : validJSON output = true)
    (hnesting : nesting output + 2 ≤ maxNestingDepth)
    (hinline : classify output worker.resultInlineThresholdBytes = .inline)
    (hroom : (269 + 7 * worker.resultInlineThresholdBytes : Int) ≤ cfg.maxRequestBytes) :
    ∃ body, succeedBody fence (some (inlineRef output)) = some body ∧ ¬ refusedForSize cfg body := by
  obtain ⟨body, hbody, hsize⟩ := succeedBody_inline fence hne ((encodableAt_iff hvalid).mpr hnesting)
  refine ⟨body, hbody, not_lt.mpr ?_⟩
  have hsmall := classify_inline hinline
  have hoctets := octets_toList output
  have hdigits := octets_intText_le (n := octetLength output) (octetLength_pos hne)
  have hcompact := octets_compact_le true output.toList
  rw [hsize, reportEnvelope]
  omega

end Reports

/-- A worker with an object store, and the default threshold. -/
def sampleWorker : ResultConfig := ⟨65536, "results", true, fun _ _ _ => true, id⟩

theorem inline_report_fits_null : ∃ ref,
    prepareResult sampleWorker sampleFence "tenant" "null" = some (some ref) ∧
      ∃ body, succeedBody sampleFence (some ref) = some body ∧ ¬ refusedForSize defaultConfig body := by
  have hvalid : validJSON "null" = true := by decide +kernel
  have hinline : classify "null" 65536 = .inline := by decide +kernel
  obtain ⟨-, ref, href, -, hfits⟩ := @inline_report_fits_iff defaultConfig sampleWorker
    sampleFence "tenant" "null" (by decide) hvalid rfl hinline
  refine ⟨ref, href, hfits.mpr ?_⟩
  unfold ReportFits
  decide +kernel

/-- A string of `n` characters of markup. -/
def markupOutput (n : ℕ) : String := String.ofList (encode jsonbStyle (.string (List.replicate n '<')))

theorem read_markupOutput (n : ℕ) :
    read maxNestingDepth (markupOutput n).toList = some (.string (List.replicate n '<'), []) := by
  have hwithin : (Value.string (List.replicate n '<')).Within maxNestingDepth :=
    ⟨Value.wellFormed_string _, Nat.zero_le _⟩
  have hread := read_encode jsonbStyle_lawful hwithin (r := []) (by rintro ⟨literal, hl⟩; cases hl)
  rwa [List.append_nil, ← String.toList_ofList (l := encode _ _)] at hread

theorem validJSON_markupOutput (n : ℕ) : validJSON (markupOutput n) = true := by
  rw [validJSON, read_markupOutput]
  rfl

theorem nesting_markupOutput (n : ℕ) : nesting (markupOutput n) = 0 := by
  rw [nesting, read_markupOutput]
  rfl

theorem octets_markupOutput (n : ℕ) : octetLength (markupOutput n) = n + 2 ∧
    octets (compact true (markupOutput n).toList) = 6 * n + 2 := by
  have hplain : octets (jsonbStyle.escape '<') = 1 := by decide
  have hescaped : octets ((goStyle true).escape '<') = 6 := by decide +kernel
  have hmark : ('\x22').utf8Size = 1 := by decide
  have hquote : ∀ escape, octets (quote escape (List.replicate n '<')) =
      n * octets (escape '<') + 2 := by
    intro escape
    rw [quote, octets_cons, octets_append, octets_flatMap_replicate, octets_cons, octets_nil, hmark]
    omega
  constructor
  · rw [← octets_toList, markupOutput, String.toList_ofList, encode, hquote, hplain]
    omega
  · rw [markupOutput, String.toList_ofList, compact_encode (Value.wellFormed_string _), encode,
      hquote, hescaped]
    omega

/-- A threshold of four kilobytes is safe under the default limit, for markup too. -/
theorem inline_report_fits_small :
    ∃ body, succeedBody sampleFence (some (inlineRef (markupOutput 4000))) = some body ∧
      ¬ refusedForSize defaultConfig body := by
  obtain ⟨hlength, -⟩ := octets_markupOutput 4000
  have hne : markupOutput 4000 ≠ "" := by
    intro h
    rw [h] at hlength
    cases hlength
  have hinline : classify (markupOutput 4000) 4096 = .inline := by
    rw [classify, hlength]
    rfl
  exact @inline_report_fits_of_threshold defaultConfig
    { sampleWorker with resultInlineThresholdBytes := 4096 } sampleFence _ hne
    (validJSON_markupOutput 4000) (by rw [nesting_markupOutput]; decide) hinline (by decide)

/-- A string of sixty thousand characters of markup is inline by the default threshold,
and its report is over the default limit. -/
theorem inline_report_too_large : defaultConfig.validate = [] ∧
    sampleWorker.resultInlineThresholdBytes = defaultConfig.resultInlineThresholdBytes ∧
    markupOutput 60000 ≠ "" ∧ validJSON (markupOutput 60000) = true ∧
    classify (markupOutput 60000) sampleWorker.resultInlineThresholdBytes = .inline ∧
    ∃ ref body, prepareResult sampleWorker sampleFence "tenant" (markupOutput 60000) =
        some (some ref) ∧
      succeedBody sampleFence (some ref) = some body ∧ refusedForSize defaultConfig body := by
  obtain ⟨hlength, hcompact⟩ := octets_markupOutput 60000
  have hvalid := validJSON_markupOutput 60000
  have hne : markupOutput 60000 ≠ "" := by
    intro h
    rw [h] at hlength
    cases hlength
  have hinline : classify (markupOutput 60000) 65536 = .inline := by
    rw [classify, hlength]
    rfl
  have hencodable : encodableAt 2 (markupOutput 60000).toList = true :=
    (encodableAt_iff hvalid).mpr (by rw [nesting_markupOutput]; decide)
  obtain ⟨body, hbody, hsize⟩ := succeedBody_inline sampleFence hne hencodable
  refine ⟨defaultConfig_valid, rfl, hne, hvalid, hinline, _, body,
    prepareResult_inline hne hinline, hbody, ?_⟩
  show (262144 : Int) < octets body
  omega

end TaskForge
