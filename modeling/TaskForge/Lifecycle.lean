/-
The lifecycle policy: failure classes, the bounds on error detail, and what one
terminal attempt does to its job (`internal/lifecycle`).

The float arithmetic of `RetryPolicy.Delay` is not embedded. The value it
computes, exponential growth times jitter, enters as `backoff`: a real number of
nanoseconds, an infinity, or not a number. Everything after that value is exact:
the clamp at zero, the ceiling to whole milliseconds and the cap. So whatever
the floats gave, the stored delay is a whole, non-negative number of
milliseconds (`delay_whole_millis`), and that is all the layers above use.
-/
import Mathlib.Data.Rat.Floor
import TaskForge.Schema

namespace TaskForge

/-! ## Failure classes and error detail -/

/-- `FailureClass.ReportableByHandler` -/
def FailureClass.reportableByHandler (c : FailureClass) : Bool :=
  c == .retryable || c == .permanent

def maxErrorCodeBytes : ℕ := 64
def maxErrorMessageBytes : ℕ := 512

def codeTimeout : String := "attempt_timeout"
def codeCanceled : String := "canceled"
def codeAbandoned : String := "attempt_abandoned"

def messageTimeout : String := "the attempt exceeded its per-attempt execution deadline"
def messageCanceled : String := "the job was canceled"
def messageAbandoned : String := "the worker lost authority without reporting an outcome"

/-- `ValidateErrorCode`: the problem, if there is one. -/
def validateErrorCode (code : String) : Option String :=
  if code = "" then some "error code is required"
  else if maxErrorCodeBytes < octetLength code then some "error code must be at most 64 bytes"
  else if !matchesName 63 code then
    some "error code must match ^[a-z0-9][a-z0-9_.-]\x7b0,63\x7d$"
  else none

/-- `ValidateErrorMessage`: the first problem, if there is one. -/
def validateErrorMessage (message : String) : Option String :=
  if maxErrorMessageBytes < octetLength message then
    some "error message must be at most 512 bytes"
  else message.toList.findSome? fun r =>
    if r = '\n' ∨ r = '\r' then some "error message must not contain line breaks"
    else if isControl r then some "error message must not contain control characters"
    else none

theorem validateErrorCode_eq_none {code : String} (h : validateErrorCode code = none) :
    matchesName 63 code = true := by
  unfold validateErrorCode at h
  split_ifs at h with h₁ h₂ h₃
  simpa using h₃

variable {message : String} {p : RetryPolicy} {class_ : FailureClass} {n used : ℕ}
  {maxAttempts : Int} {backoff : ℕ → F64} {d : Decision}

theorem validateErrorMessage_eq_none (h : validateErrorMessage message = none) :
    octetLength message ≤ 512 ∧ message.toList.any isControl = false := by
  unfold validateErrorMessage at h
  split_ifs at h with hlen
  refine ⟨not_lt.mp hlen, ?_⟩
  rw [List.findSome?_eq_none_iff] at h
  rw [List.any_eq_false]
  intro r hr hctl
  have hnone := h r hr
  rw [hctl, if_pos rfl] at hnone
  split_ifs at hnone

theorem validateErrorMessage_of_bounded (hlen : octetLength message ≤ 512)
    (hctl : message.toList.any isControl = false) : validateErrorMessage message = none := by
  have hlimit : ¬ maxErrorMessageBytes < octetLength message := not_lt.mpr hlen
  rw [validateErrorMessage, if_neg hlimit, List.findSome?_eq_none_iff]
  intro r hr
  have hr' := List.any_eq_false.mp hctl r hr
  have hbreak : ¬ (r = '\n' ∨ r = '\r') := by
    rintro (rfl | rfl)
    · exact hr' (by decide)
    · exact hr' (by decide)
  rw [if_neg hbreak, if_neg hr']

/-! ## The stored delay -/

/-- A float64 as the delay calculation can leave it. -/
inductive F64 where
  | nan
  | posInf
  | negInf
  | finite (value : ℚ)
deriving DecidableEq

/-- `time.Millisecond` -/
def millisecond : Int := 1000000

/-- `time.Second` -/
def second : Int := 1000000000

/-- `maxDelayMillis`: `math.MaxInt64` nanoseconds in whole milliseconds. -/
def maxDelayMillis : Int := 9223372036854775807 / millisecond

/-- `capMillis` -/
def capMillis (max : Int) : Int :=
  if max ≤ 0 then 1
  else if max / millisecond < 1 then 1
  else if maxDelayMillis < max / millisecond then maxDelayMillis
  else max / millisecond

/-- `quantizeNanos` -/
def quantizeNanos (nanos : F64) (max : Int) : Int :=
  match nanos with
  | .nan => 0
  | .posInf => capMillis max * millisecond
  | .negInf => 0
  | .finite q =>
    if q ≤ 0 then 0
    else
      let ms : Int := if (q / millisecond).ceil < 1 then 1 else (q / millisecond).ceil
      if capMillis max ≤ ms then capMillis max * millisecond else ms * millisecond

/-- `RetryPolicy`, without the two fields only the float arithmetic reads. -/
structure RetryPolicy where
  base : Int
  max : Int
deriving DecidableEq, Repr

/-- `RetryPolicy.Delay`. `backoff n` is the float the source computes for attempt
number `n` before the final clamp at zero. -/
def RetryPolicy.delay (p : RetryPolicy) (attemptNumber : ℕ) (backoff : ℕ → F64) : Int :=
  let base := if p.base ≤ 0 then second else p.base
  let max := if p.max < base then base else p.max
  let computed :=
    match backoff (if attemptNumber < 1 then 1 else attemptNumber) with
    | .negInf => .finite 0
    | .finite q => if q < 0 then .finite 0 else .finite q
    | other => other
  quantizeNanos computed max

theorem one_le_capMillis (max : Int) : 1 ≤ capMillis max := by
  unfold capMillis
  split_ifs with h₁ h₂ h₃
  · exact le_rfl
  · exact le_rfl
  · decide
  · exact not_lt.mp h₂

theorem capMillis_le (max : Int) : capMillis max ≤ maxDelayMillis := by
  have hone : (1 : Int) ≤ maxDelayMillis := by decide
  unfold capMillis
  split_ifs <;> omega

/-- Whatever was computed, the stored delay is a whole number of milliseconds,
and not a negative one. -/
theorem quantizeNanos_whole_millis (nanos : F64) (max : Int) :
    ∃ ms : Int, 0 ≤ ms ∧ quantizeNanos nanos max = ms * millisecond := by
  have hcap := one_le_capMillis max
  cases nanos with
  | nan | negInf => exact ⟨0, le_rfl, rfl⟩
  | posInf => exact ⟨capMillis max, by omega, rfl⟩
  | finite q =>
    simp only [quantizeNanos]
    split_ifs with hq hle hle hle
    · exact ⟨0, le_rfl, rfl⟩
    · exact ⟨capMillis max, by omega, rfl⟩
    · exact ⟨1, by omega, rfl⟩
    · exact ⟨capMillis max, by omega, rfl⟩
    · exact ⟨(q / millisecond).ceil, by omega, rfl⟩

theorem delay_whole_millis (p : RetryPolicy) (n : ℕ) (backoff : ℕ → F64) :
    ∃ ms : Int, 0 ≤ ms ∧ p.delay n backoff = ms * millisecond :=
  quantizeNanos_whole_millis _ _

/-! ## The decision -/

/-- `lifecycle.Decision`. The empty reason is `none`. -/
structure Decision where
  retry : Bool
  delay : Int
  deadLetterReason : Option DLQReason
deriving DecidableEq, Repr

/-- `RetryPolicy.Decide` -/
def RetryPolicy.decide (p : RetryPolicy) (class_ : FailureClass) (attemptNumber attemptsUsed : ℕ)
    (maxAttempts : Int) (backoff : ℕ → F64) : Except String Decision :=
  match class_ with
  | .permanent => .ok ⟨false, 0, some .permanentFailure⟩
  | .retryable | .timedOut =>
    if (attemptsUsed : Int) < maxAttempts then .ok ⟨true, p.delay attemptNumber backoff, none⟩
    else .ok ⟨false, 0, some .attemptsExhausted⟩
  | .abandoned =>
    if (attemptsUsed : Int) < maxAttempts then .ok ⟨true, 0, none⟩
    else .ok ⟨false, 0, some .attemptsExhausted⟩
  | .canceled => .error "failure class \"CANCELED\" has no retry decision"
  | .other word => .error ("failure class " ++ goQuoted word ++ " has no retry decision")

/-- What a decision says: a retry is within the budget and waits a whole number
of milliseconds; no retry is a permanent failure, or a used-up budget. -/
structure Decision.Sound (d : Decision) (class_ : FailureClass) (used : ℕ) (maxAttempts : Int) :
    Prop where
  retry_budget : d.retry = true → (used : Int) < maxAttempts
  retry_delay : d.retry = true → ∃ ms : Int, 0 ≤ ms ∧ d.delay = ms * millisecond
  dead_reason : d.retry = false → d.deadLetterReason =
    some (if class_ = .permanent then .permanentFailure else .attemptsExhausted)
  dead_budget : d.retry = false → class_ ≠ .permanent → maxAttempts ≤ used
  permanent_dead : class_ = .permanent → d.retry = false
  abandoned_now : class_ = .abandoned → d.delay = 0

theorem decide_sound (h : p.decide class_ n used maxAttempts backoff = .ok d) :
    d.Sound class_ used maxAttempts := by
  have hwhole := delay_whole_millis p n backoff
  unfold RetryPolicy.decide at h
  cases class_ with
  | permanent => cases h; constructor <;> simp
  | canceled | other => cases h
  | retryable | timedOut =>
    dsimp only at h
    split_ifs at h with hlt
    · cases h; constructor <;> simp [hlt, hwhole]
    · cases h; constructor <;> simp [not_lt.mp hlt]
  | abandoned =>
    dsimp only at h
    split_ifs at h with hlt
    · cases h
      refine ⟨fun _ => hlt, fun _ => ⟨0, le_rfl, rfl⟩, ?_, ?_, ?_, fun _ => rfl⟩ <;> simp
    · cases h; constructor <;> simp [not_lt.mp hlt]

/-- No delay is longer than a duration can say. -/
theorem quantizeNanos_le (nanos : F64) (max : Int) :
    quantizeNanos nanos max ≤ maxDelayMillis * millisecond := by
  have hcap := capMillis_le max
  have hunit : 0 ≤ millisecond := by decide
  have hpos : 0 ≤ maxDelayMillis * millisecond := by decide
  have hmul : ∀ ms, ms ≤ maxDelayMillis → ms * millisecond ≤ maxDelayMillis * millisecond :=
    fun ms h => Int.mul_le_mul_of_nonneg_right h hunit
  cases nanos with
  | nan | negInf => exact hpos
  | posInf => exact hmul _ hcap
  | finite q =>
    simp only [quantizeNanos]
    split_ifs with hq hle hle hle
    · exact hpos
    · exact hmul _ hcap
    · exact hmul _ (by omega)
    · exact hmul _ hcap
    · exact hmul _ (by omega)

theorem decide_delay (h : p.decide class_ n used maxAttempts backoff = .ok d) :
    0 ≤ d.delay ∧ d.delay ≤ maxDelayMillis * millisecond := by
  have hzero : (0 : Int) ≤ 0 ∧ 0 ≤ maxDelayMillis * millisecond := by decide
  have hdelay : 0 ≤ p.delay n backoff ∧ p.delay n backoff ≤ maxDelayMillis * millisecond := by
    obtain ⟨ms, hms, hwhole⟩ := delay_whole_millis p n backoff
    refine ⟨?_, quantizeNanos_le _ _⟩
    rw [hwhole]
    exact Int.mul_nonneg hms (by decide)
  unfold RetryPolicy.decide at h
  cases class_ with
  | permanent => cases h; exact hzero
  | canceled | other => cases h
  | retryable | timedOut =>
    dsimp only at h
    split_ifs at h
    · cases h; exact hdelay
    · cases h; exact hzero
  | abandoned =>
    dsimp only at h
    split_ifs at h
    · cases h; exact hzero
    · cases h; exact hzero

/-- Only a cancellation, or a word that is no class, has no decision. -/
theorem decide_ok (p : RetryPolicy) (n used : ℕ) (maxAttempts : Int) (backoff : ℕ → F64)
    (hclass : class_ = .retryable ∨ class_ = .permanent ∨
      class_ = .timedOut ∨ class_ = .abandoned) :
    ∃ d, p.decide class_ n used maxAttempts backoff = .ok d := by
  unfold RetryPolicy.decide
  rcases hclass with rfl | rfl | rfl | rfl <;> dsimp only
  · split <;> exact ⟨_, rfl⟩
  · exact ⟨_, rfl⟩
  · split <;> exact ⟨_, rfl⟩
  · split <;> exact ⟨_, rfl⟩

end TaskForge
