/-
The identity of a submission: the bytes `NormalizedRequest.Fingerprint` hashes
(`internal/jobs/submit.go`).

Two accepted requests hash the same bytes exactly when they mean the same
(`fingerprint_identity`): each field is framed by its length, the capabilities are
preceded by their number, and a schedule is told from no schedule by the two blocks it
adds. What `Normalize` removes is what is not part of the meaning: blanks around names,
the order and repetition of capabilities, the spelling of the payload, the offset an
instant is written in, and the difference between a default and its omission.
-/
import TaskForge.Canonical
import TaskForge.Framing
import TaskForge.Jobs

open Json

namespace TaskForge

def fingerprintVersion : String := "taskforge.fingerprint.v1"
def scheduledAtFingerprintTag : String := "taskforge.fingerprint.scheduled_at"

/-- `[]byte(s)` -/
def bytesOf (s : String) : List UInt8 := Utf8.encode s.toList

/-- `[]byte(strconv.Itoa(n))` -/
def itoa (n : Int) : List UInt8 := Utf8.encode (intText n)

/-- The blocks a schedule adds. -/
def scheduleBlocks : Option Int → List (List UInt8)
  | none => []
  | some t => [bytesOf scheduledAtFingerprintTag, Utf8.encode (Calendar.appendRFC3339Nano t)]

/-- The blocks `Fingerprint` writes, in order. -/
def NormalizedRequest.blocks (n : NormalizedRequest) : List (List UInt8) :=
  [bytesOf fingerprintVersion, bytesOf n.queue, bytesOf n.type_, bytesOf n.payload,
    itoa n.priority, itoa n.maxAttempts, itoa n.timeoutSeconds,
    itoa n.requiredCapabilities.length] ++
    (n.requiredCapabilities.map bytesOf ++ scheduleBlocks n.scheduledAt)

/-- The byte stream `Fingerprint` hashes. -/
def NormalizedRequest.hashed (n : NormalizedRequest) : List UInt8 := Framing.stream n.blocks

/-- `NormalizedRequest.Fingerprint`, for SHA-256 in hexadecimal. -/
def NormalizedRequest.fingerprint (sha256 : List UInt8 → String) (n : NormalizedRequest) : String :=
  sha256 n.hashed

/-! ## Blocks are told apart -/

theorem encode_inj {t t' : Text} (h : Utf8.encode t = Utf8.encode t') : t = t' := by
  rw [← Utf8.runes_encode t, h, Utf8.runes_encode]

theorem bytesOf_inj {s s' : String} (h : bytesOf s = bytesOf s') : s = s' :=
  String.toList_inj.mp (encode_inj h)

theorem itoa_inj {n n' : Int} (h : itoa n = itoa n') : n = n' := by
  have htext := congrArg readSigned (encode_inj h)
  rw [readSigned_intText, readSigned_intText] at htext
  exact Option.some.inj htext

theorem scheduleBlocks_inj {t t' : Option Int} (h : scheduleBlocks t = scheduleBlocks t') :
    t = t' := by
  cases t with
  | none =>
    cases t' with
    | none => rfl
    | some t' => cases h
  | some t =>
    cases t' with
    | none => cases h
    | some t' =>
      simp only [scheduleBlocks, List.cons.injEq, and_true, true_and] at h
      rw [Calendar.appendRFC3339Nano_injective (encode_inj h)]

/-- The blocks determine the request: the number of capabilities says where they end. -/
theorem blocks_inj {n n' : NormalizedRequest} (h : n.blocks = n'.blocks) : n = n' := by
  obtain ⟨queue, type_, payload, priority, attempts, timeout, caps, schedule⟩ := n
  obtain ⟨queue', type', payload', priority', attempts', timeout', caps', schedule'⟩ := n'
  obtain ⟨hhead, htail⟩ := List.append_inj h rfl
  simp only [List.cons.injEq, and_true, true_and] at hhead
  obtain ⟨hqueue, htype, hpayload, hpriority, hattempts, htimeout, hcount⟩ := hhead
  have hlength : (caps.map bytesOf).length = (caps'.map bytesOf).length := by
    rw [List.length_map, List.length_map]
    exact Int.ofNat.inj (itoa_inj hcount)
  obtain ⟨hcaps, hschedule⟩ := List.append_inj htail hlength
  have hinj : Function.Injective bytesOf := fun _ _ => bytesOf_inj
  have hcaps : caps = caps' := List.map_injective_iff.mpr hinj hcaps
  have hschedule : schedule = schedule' := scheduleBlocks_inj hschedule
  rw [bytesOf_inj hqueue, bytesOf_inj htype, bytesOf_inj hpayload, itoa_inj hpriority,
    itoa_inj hattempts, itoa_inj htimeout, hcaps, hschedule]

/-! ## Lengths -/

theorem encode_length_le (t : Text) : (Utf8.encode t).length ≤ 4 * t.length := by
  induction t with
  | nil => exact Nat.le_refl 0
  | cons c t ih =>
    have hsize := Char.utf8Size_le_four c
    rw [Utf8.encode_cons, List.length_append, String.length_utf8EncodeChar, List.length_cons]
    omega

/-- A block of few characters fits its length field. -/
theorem fits_encode {t : Text} (h : t.length ≤ 1000000) : Framing.Fits (Utf8.encode t) := by
  have hle := encode_length_le t
  unfold Framing.Fits
  omega

theorem fits_name {tail : ℕ} {s : String} (h : matchesName tail s = true) (htail : tail ≤ 127) :
    Framing.Fits (bytesOf s) := by
  apply fits_encode
  unfold matchesName at h
  cases hs : s.toList with
  | nil => exact Nat.zero_le _
  | cons c cs =>
    rw [hs] at h
    simp only [Bool.and_eq_true, decide_eq_true_eq] at h
    rw [List.length_cons]
    omega

theorem fits_itoa {n : Int} (hlo : 0 ≤ n) (hhi : n ≤ 86400) : Framing.Fits (itoa n) := by
  obtain ⟨m, rfl⟩ := Int.eq_ofNat_of_zero_le hlo
  apply fits_encode
  have hdigits : (Nat.toDigits 10 m).length ≤ 5 :=
    (Nat.length_toDigits_le_iff (by decide) (by decide)).mpr (by omega)
  exact hdigits.trans (by decide)

/-- An instant that was parsed is of a year with at most five digits. -/
theorem fits_instant {t : Text} {n : Int} (h : Calendar.parseRFC3339 t = some n) :
    Framing.Fits (Utf8.encode (Calendar.appendRFC3339Nano n)) := by
  apply fits_encode
  obtain ⟨hlo, hhi⟩ := Calendar.parseRFC3339_bounds h
  have hfirst : Calendar.yearStart (-1) * Calendar.nanosPerDay = -62198755200000000000 := by decide
  have hlast : Calendar.yearStart 10001 * Calendar.nanosPerDay = 253433923200000000000 := by decide
  have hyear : -1 ≤ Calendar.yearOf n ∧ Calendar.yearOf n ≤ 10000 := by
    refine Calendar.yearOf_between.mpr ⟨?_, ?_⟩
    · rw [hfirst]
      omega
    · rw [show (10000 : Int) + 1 = 10001 from rfl, hlast]
      omega
  have hdigits : (Calendar.yearOf n).natAbs < 10 ^ 5 := by omega
  have hshort := Calendar.appendRFC3339Nano_length_le hdigits
  omega

/-! ## Meaning -/

/-- The document a payload is read as, compared as `CanonicalJSON` compares documents. -/
def payloadTree (raw : Text) : Option Tree := (read maxNestingDepth raw).map fun p => p.1.tree

/-- The instant a schedule names. -/
def instantOf (s : String) : Option Int := Calendar.parseRFC3339 (trimSpace s).toList

/-- Two submissions ask for the same job: blanks around names, the order and repetition
of capabilities, omitted defaults and the offset of the schedule do not count. -/
structure SameMeaning (r r' : SubmitRequest) : Prop where
  queue : trimSpace r.queue = trimSpace r'.queue
  type_ : trimSpace r.type_ = trimSpace r'.type_
  payload : payloadTree r.payload = payloadTree r'.payload
  priority : r.priority.getD defaultPriority = r'.priority.getD defaultPriority
  maxAttempts : r.maxAttempts.getD defaultMaxAttempts = r'.maxAttempts.getD defaultMaxAttempts
  timeoutSeconds :
    r.timeoutSeconds.getD defaultTimeoutSeconds = r'.timeoutSeconds.getD defaultTimeoutSeconds
  capabilities : ∀ c, c ∈ r.requiredCapabilities.map trimSpace ↔
    c ∈ r'.requiredCapabilities.map trimSpace
  schedule : r.scheduledAt.map instantOf = r'.scheduledAt.map instantOf

section Identity

variable {explain : Text → String} {r r' : SubmitRequest} {out out' : NormalizedRequest}

theorem normalizeSchedule_instant {given : Option String} {t : Option Int}
    (h : normalizeSchedule given = .ok t) : given.map instantOf = t.map some := by
  cases given with
  | none =>
    cases h
    rfl
  | some s =>
    simp only [normalizeSchedule] at h
    cases hparse : Calendar.parseRFC3339 (trimSpace s).toList with
    | none => rw [hparse] at h; cases h
    | some n =>
      rw [hparse] at h
      cases h
      rw [Option.map_some, instantOf, hparse]
      rfl

/-- The capabilities of an accepted request are its trimmed names, each once, sorted. -/
theorem normalizeCapabilities_spec {given : List String} (h : capabilityProblems given = []) :
    (normalizeCapabilities given).SortedLT ∧
      ∀ c, c ∈ normalizeCapabilities given ↔ c ∈ given.map trimSpace := by
  unfold capabilityProblems at h
  split_ifs at h with hmany
  have hnames : ∀ c ∈ given.map trimSpace, matchesName 63 c = true := by
    intro c hc
    obtain ⟨x, hx, rfl⟩ := List.mem_map.mp hc
    obtain ⟨i, hi⟩ := List.mem_iff_getElem?.mp hx
    have hpair : (x, i) ∈ given.zipIdx := List.mem_zipIdx_iff_getElem?.mpr hi
    rw [List.flatMap_eq_nil_iff] at h
    have hkept := h (x, i) hpair
    rw [mustHold_eq_nil] at hkept
    exact hkept
  unfold normalizeCapabilities
  rw [if_neg hmany, List.filter_eq_self.mpr hnames]
  constructor
  · have hnodup := (List.perm_insertionSort (· ≤ ·) _).nodup_iff.mpr
      (List.nodup_dedup (given.map trimSpace))
    exact List.SortedLE.sortedLT_of_nodup (List.pairwise_insertionSort _ _).sortedLE hnodup
  · intro c
    rw [List.mem_insertionSort, List.mem_dedup]

/-- Two lists of capabilities are normalised to one exactly when they are one set. -/
theorem normalizeCapabilities_eq_iff {given given' : List String}
    (h : capabilityProblems given = []) (h' : capabilityProblems given' = []) :
    normalizeCapabilities given = normalizeCapabilities given' ↔
      ∀ c, c ∈ given.map trimSpace ↔ c ∈ given'.map trimSpace := by
  obtain ⟨hsorted, hmem⟩ := normalizeCapabilities_spec h
  obtain ⟨hsorted', hmem'⟩ := normalizeCapabilities_spec h'
  constructor
  · intro heq c
    rw [← hmem, ← hmem', heq]
  · intro hsame
    refine hsorted.eq_of_mem_iff hsorted' fun c => ?_
    rw [hmem, hmem', hsame]

/-- Two payloads are stored as one text exactly when they are one document. -/
theorem normalizePayload_eq_iff {raw raw' canonical canonical' : Text}
    (h : normalizePayload explain raw = .ok canonical)
    (h' : normalizePayload explain raw' = .ok canonical') :
    canonical = canonical' ↔ payloadTree raw = payloadTree raw' := by
  obtain ⟨v, rest, hread, rfl, -⟩ := normalizePayload_reads h
  obtain ⟨v', rest', hread', rfl, -⟩ := normalizePayload_reads h'
  rw [payloadTree, payloadTree, hread, hread', Option.map_some, Option.map_some,
    Option.some.injEq]
  exact writeCanonical_eq_iff (read_sound hread) (read_sound hread')

/-- Requests are normalised to one request exactly when they mean the same. -/
theorem normalize_eq_iff (h : r.normalize explain = .ok out) (h' : r'.normalize explain = .ok out') :
    out = out' ↔ SameMeaning r r' := by
  have hn := normalize_eq_ok h
  have hn' := normalize_eq_ok h'
  have hf := normalize_filledIn h
  have hf' := normalize_filledIn h'
  have hcaps := normalizeCapabilities_eq_iff hf.accepted hf'.accepted
  have hpayload := normalizePayload_eq_iff hn.payload hn'.payload
  have hschedule := normalizeSchedule_instant hn.schedule
  have hschedule' := normalizeSchedule_instant hn'.schedule
  constructor
  · rintro rfl
    exact
      { queue := hf.queue.symm.trans hf'.queue
        type_ := hf.type_.symm.trans hf'.type_
        payload := hpayload.mp rfl
        priority := hf.priority.symm.trans hf'.priority
        maxAttempts := hf.maxAttempts.symm.trans hf'.maxAttempts
        timeoutSeconds := hf.timeoutSeconds.symm.trans hf'.timeoutSeconds
        capabilities := hcaps.mp (hf.capabilities.symm.trans hf'.capabilities)
        schedule := hschedule.trans hschedule'.symm }
  · intro hsame
    have hinstant : out.scheduledAt = out'.scheduledAt := by
      have heq : out.scheduledAt.map some = out'.scheduledAt.map some := by
        rw [← hschedule, ← hschedule', hsame.schedule]
      exact Option.map_injective (Option.some_injective _) heq
    have htext : out.payload = out'.payload :=
      String.toList_inj.mp (hpayload.mpr hsame.payload)
    cases out
    cases out'
    rw [NormalizedRequest.mk.injEq]
    exact ⟨hf.queue.trans (hsame.queue.trans hf'.queue.symm),
      hf.type_.trans (hsame.type_.trans hf'.type_.symm), htext,
      hf.priority.trans (hsame.priority.trans hf'.priority.symm),
      hf.maxAttempts.trans (hsame.maxAttempts.trans hf'.maxAttempts.symm),
      hf.timeoutSeconds.trans (hsame.timeoutSeconds.trans hf'.timeoutSeconds.symm),
      hf.capabilities.trans ((hcaps.mpr hsame.capabilities).trans hf'.capabilities.symm), hinstant⟩

/-- Every block of an accepted request fits its length field, if the payload does. -/
theorem fits_blocks (h : r.normalize explain = .ok out)
    (hpayload : (bytesOf out.payload).length < 2 ^ 63) : ∀ b ∈ out.blocks, Framing.Fits b := by
  have hn := normalize_eq_ok h
  have hf := normalize_filledIn h
  have hpriority := hn.priority
  have hattempts := hn.maxAttempts
  have htimeout := hn.timeoutSeconds
  simp only [between, Bool.and_eq_true, decide_eq_true_eq] at hpriority hattempts htimeout
  have hcount : (out.requiredCapabilities.length : Int) ≤ 16 := by
    have hproblems := hf.accepted
    unfold capabilityProblems at hproblems
    split_ifs at hproblems with hmany
    have hkept : (normalizeCapabilities r.requiredCapabilities).length ≤
        r.requiredCapabilities.length := by
      unfold normalizeCapabilities
      rw [if_neg hmany, List.length_insertionSort]
      refine ((List.dedup_sublist _).length_le.trans (List.length_filter_le _ _)).trans ?_
      rw [List.length_map]
    rw [hf.capabilities]
    have hmax : maxCapabilities = 16 := rfl
    omega
  have hpayloadFits : Framing.Fits (bytesOf out.payload) := by
    unfold Framing.Fits
    omega
  have hversion : Framing.Fits (bytesOf fingerprintVersion) := fits_encode (by decide)
  have htag : Framing.Fits (bytesOf scheduledAtFingerprintTag) := fits_encode (by decide)
  have hfixed : ∀ b ∈ [bytesOf fingerprintVersion, bytesOf out.queue, bytesOf out.type_,
      bytesOf out.payload, itoa out.priority, itoa out.maxAttempts, itoa out.timeoutSeconds,
      itoa out.requiredCapabilities.length], Framing.Fits b := by
    simp only [List.forall_mem_cons]
    exact ⟨hversion, fits_name hn.queue (by decide), fits_name hn.type_ (by decide), hpayloadFits,
      fits_itoa hpriority.1 (by omega), fits_itoa (by omega) (by omega),
      fits_itoa (by omega) htimeout.2, fits_itoa (by omega) (by omega),
      fun _ hb => absurd hb List.not_mem_nil⟩
  intro b hb
  rcases List.mem_append.mp hb with hb | hb
  · exact hfixed b hb
  · rcases List.mem_append.mp hb with hb | hb
    · obtain ⟨c, hc, rfl⟩ := List.mem_map.mp hb
      exact fits_name (hn.capabilities c hc) (by decide)
    · cases ht : out.scheduledAt with
      | none =>
        rw [ht] at hb
        cases hb
      | some t =>
        obtain ⟨s, -, hparse⟩ := normalizeSchedule_eq_ok (ht ▸ hn.schedule)
        rw [ht] at hb
        simp only [scheduleBlocks, List.mem_cons, List.not_mem_nil, or_false] at hb
        rcases hb with rfl | rfl
        · exact htag
        · exact fits_instant hparse

/-- What a record found under the key answers. -/
theorem resolveExisting_found {db : DB} {scope key fingerprint : String} {record : IdempotencyRecord}
    (hfind : db.idempotency.rows.find? (fun x => x.scope == scope && x.idempotencyKey == key) =
      some record) :
    resolveExisting db scope key fingerprint =
      if record.requestFingerprint = fingerprint then
        (getByID db scope record.jobID).map fun job => ⟨job, true⟩
      else .error ⟨.idempotencyConflict, .check⟩ := by
  have hfetch : resolveExisting db scope key fingerprint =
      (demand (record.requestFingerprint == fingerprint) .idempotencyConflict).bind fun _ =>
        (getByID db scope record.jobID).bind fun job => .ok ⟨job, true⟩ := by
    simp only [resolveExisting, hfind]
    rfl
  rw [hfetch]
  split_ifs with hsame
  · rw [beq_iff_eq.mpr hsame]
    cases getByID db scope record.jobID <;> rfl
  · rw [beq_eq_false_iff_ne.mpr hsame]
    rfl

/-- **Fingerprint identity.** The bytes two accepted requests hash are the same exactly
when the requests mean the same. So where the digest of one does not collide with that of
the other, an idempotency record of the one answers the other exactly in that case, and
is a conflict otherwise. A payload is a Go slice, so its length is within an `int`. -/
theorem fingerprint_identity (h : r.normalize explain = .ok out)
    (h' : r'.normalize explain = .ok out') (hpayload : (bytesOf out.payload).length < 2 ^ 63)
    (hpayload' : (bytesOf out'.payload).length < 2 ^ 63) :
    (out.hashed = out'.hashed ↔ SameMeaning r r') ∧
      ∀ sha256 : List UInt8 → String,
        (sha256 out.hashed = sha256 out'.hashed → out.hashed = out'.hashed) →
        ∀ (db : DB) (scope key : String) (record : IdempotencyRecord),
          db.idempotency.rows.find? (fun x => x.scope == scope && x.idempotencyKey == key) =
            some record →
          record.requestFingerprint = out.fingerprint sha256 →
          (SameMeaning r r' → resolveExisting db scope key (out'.fingerprint sha256) =
            (getByID db scope record.jobID).map fun job => ⟨job, true⟩) ∧
          (¬ SameMeaning r r' → resolveExisting db scope key (out'.fingerprint sha256) =
            .error ⟨.idempotencyConflict, .check⟩) := by
  have hiff : out.hashed = out'.hashed ↔ SameMeaning r r' := by
    rw [← normalize_eq_iff h h']
    constructor
    · intro hstream
      exact blocks_inj (Framing.stream_inj (fits_blocks h hpayload) (fits_blocks h' hpayload') hstream)
    · rintro rfl
      rfl
  refine ⟨hiff, ?_⟩
  intro sha256 hcollision db scope key record hfind hrecord
  have hdigest : record.requestFingerprint = out'.fingerprint sha256 ↔ SameMeaning r r' := by
    rw [hrecord, ← hiff]
    constructor
    · exact hcollision
    · intro heq
      rw [NormalizedRequest.fingerprint, NormalizedRequest.fingerprint, heq]
  rw [resolveExisting_found hfind]
  constructor
  · intro hsame
    rw [if_pos (hdigest.mpr hsame)]
  · intro hdiffer
    rw [if_neg fun heq => hdiffer (hdigest.mp heq)]

/-- One job asked for in two spellings. -/
theorem fingerprint_identity_spellings :
    ∃ out out', SubmitRequest.normalize (fun _ => "")
        ⟨" default", "email", "\x7b\"b\":1,\"a\":2\x7d".toList, none, some 3, none,
          some "2026-09-01T12:00:00Z", ["cpu", "gpu"]⟩ = .ok out ∧
      SubmitRequest.normalize (fun _ => "")
        ⟨"default", "email ", "\x7b \"a\": 2, \"b\": 1 \x7d".toList, some 50, none, some 300,
          some "2026-09-01T14:00:00+02:00", ["gpu", " cpu", "gpu"]⟩ = .ok out' ∧
      out.hashed = out'.hashed := by
  have h : SubmitRequest.normalize (fun _ => "")
      ⟨" default", "email", "\x7b\"b\":1,\"a\":2\x7d".toList, none, some 3, none,
        some "2026-09-01T12:00:00Z", ["cpu", "gpu"]⟩ =
      .ok ⟨"default", "email", "\x7b\"a\":2,\"b\":1\x7d", 50, 3, 300, ["cpu", "gpu"],
        some 1788264000000000000⟩ := by decide +kernel
  have h' : SubmitRequest.normalize (fun _ => "")
      ⟨"default", "email ", "\x7b \"a\": 2, \"b\": 1 \x7d".toList, some 50, none, some 300,
        some "2026-09-01T14:00:00+02:00", ["gpu", " cpu", "gpu"]⟩ =
      .ok ⟨"default", "email", "\x7b\"a\":2,\"b\":1\x7d", 50, 3, 300, ["cpu", "gpu"],
        some 1788264000000000000⟩ := by decide +kernel
  have hsame : SameMeaning _ _ := (normalize_eq_iff h h').mp rfl
  exact ⟨_, _, h, h', (fingerprint_identity h h' (by decide +kernel) (by decide +kernel)).1.mpr hsame⟩

end Identity

end TaskForge
