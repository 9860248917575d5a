/-
The retry delay from the float it is computed as to the columns it is stored in
(`internal/lifecycle/retry.go`, `internal/workers/outcome.go`).

`Lifecycle` has `quantizeNanos` over the integers. Here it is read once more as the
machine runs it, with every operation on `int64` and every conversion defined only where
its exact result is representable: none is ever undefined (`quantizeChecked_eq`). What
it returns is the ceiling in milliseconds, capped (`quantizeNanos_positive`), and within
`Max` for a policy that `Validate` accepts. `finalizeAttempt` then derives the stored
delay, the instant and the job's status from that one value (`finalizeAttempt_records`),
so a job waits exactly when the computed backoff was positive.
-/
import TaskForge.System
import Mathlib.Algebra.Order.Floor.Ring
import Mathlib.Order.WithBot

open Relational Fallible

namespace TaskForge

/-! ## Without overflow -/

/-- The result of an operation on `int64`, where that is the exact one. -/
def exact64 (n : Int) : Option Int :=
  if -9223372036854775808 ≤ n ∧ n ≤ 9223372036854775807 then some n else none

/-- `float64(n)`, where that is the exact one. -/
def exactFloat (n : Int) : Option ℚ :=
  if -9007199254740992 ≤ n ∧ n ≤ 9007199254740992 then some n else none

/-- `capMillis`, operation by operation. -/
def capMillisChecked (max : Int) : Option Int :=
  if max ≤ 0 then some 1
  else do
    let ms ← exact64 (max.tdiv millisecond)
    if ms < 1 then some 1 else if maxDelayMillis < ms then some maxDelayMillis else some ms

/-- `quantizeNanos`, operation by operation. The division and the ceiling of the float
are exact. -/
def quantizeChecked (nanos : F64) (max : Int) : Option Int := do
  let capMs ← capMillisChecked max
  match nanos with
  | .nan => some 0
  | .posInf => exact64 (capMs * millisecond)
  | .negInf => some 0
  | .finite q =>
    if q ≤ 0 then some 0
    else do
      let ms : Int := if (q / millisecond).ceil < 1 then 1 else (q / millisecond).ceil
      let limit ← exactFloat capMs
      if limit ≤ ms then exact64 (capMs * millisecond)
      else do
        let whole ← exact64 ms
        exact64 (whole * millisecond)

theorem exact64_eq_some {n : Int} (h : -9223372036854775808 ≤ n ∧ n ≤ 9223372036854775807) :
    exact64 n = some n := if_pos h

theorem capMillisChecked_eq (max : Int64) :
    capMillisChecked max.toInt = some (capMillis max.toInt) := by
  have hlo := max.le_toInt
  have hhi := max.toInt_lt
  generalize max.toInt = n at *
  unfold capMillisChecked capMillis
  by_cases hpos : n ≤ 0
  · rw [if_pos hpos, if_pos hpos]
  · have hdiv : n.tdiv millisecond = n / millisecond := Int.tdiv_eq_ediv_of_nonneg (by omega)
    have hunit : millisecond = 1000000 := rfl
    rw [if_neg hpos, if_neg hpos, hdiv, exact64_eq_some (by rw [hunit]; omega)]
    simp only [Option.bind_eq_bind, Option.bind_some]
    split_ifs <;> rfl

/-- No operation of `quantizeNanos` overflows and no conversion is undefined. -/
theorem quantizeChecked_eq (nanos : F64) (max : Int64) :
    quantizeChecked nanos max.toInt = some (quantizeNanos nanos max.toInt) := by
  have hcap1 := one_le_capMillis max.toInt
  have hcap2 := capMillis_le max.toInt
  have hmax : maxDelayMillis = 9223372036854 := by decide
  have hunit : millisecond = 1000000 := rfl
  have hcapped : exact64 (capMillis max.toInt * millisecond) =
      some (capMillis max.toInt * millisecond) := exact64_eq_some (by rw [hunit]; omega)
  unfold quantizeChecked
  rw [capMillisChecked_eq]
  cases nanos with
  | nan | negInf => rfl
  | posInf => exact hcapped
  | finite q =>
    simp only [quantizeNanos, Option.bind_eq_bind, Option.bind_some]
    by_cases hq : q ≤ 0
    · rw [if_pos hq, if_pos hq]
    · rw [if_neg hq, if_neg hq]
      generalize hms : (if (q / millisecond).ceil < 1 then 1 else (q / millisecond).ceil) = ms
      have hone : 1 ≤ ms := by
        rw [← hms]
        split_ifs <;> omega
      have hfloat : exactFloat (capMillis max.toInt) = some (capMillis max.toInt : ℚ) :=
        if_pos (by omega)
      rw [hfloat, Option.bind_some]
      by_cases hle : capMillis max.toInt ≤ ms
      · rw [if_pos (Int.cast_le.mpr hle), if_pos hle, hcapped]
      · rw [if_neg fun h => hle (Int.cast_le.mp h), if_neg hle, exact64_eq_some (by omega),
          Option.bind_some, exact64_eq_some (by rw [hunit]; omega)]

/-! ## What is returned -/

/-- The delay is a positive number, or infinite. -/
def F64.Positive : F64 → Prop
  | .nan => False
  | .posInf => True
  | .negInf => False
  | .finite q => 0 < q

/-- The ceiling in milliseconds of a delay that is not NaN or negative. -/
def F64.ceilMillis : F64 → WithTop Int
  | .finite q => ((q / millisecond).ceil : Int)
  | .posInf => ⊤
  | _ => 0

theorem quantizeNanos_eq_zero {nanos : F64} (max : Int) (h : ¬ nanos.Positive) :
    quantizeNanos nanos max = 0 := by
  cases nanos with
  | nan | negInf => rfl
  | posInf => exact absurd trivial h
  | finite q => exact if_pos (not_lt.mp h)

/-- A positive delay is rounded up to whole milliseconds and capped; it stays positive. -/
theorem quantizeNanos_positive {nanos : F64} (max : Int) (h : nanos.Positive) :
    ∃ ms : Int, 1 ≤ ms ∧ (ms : WithTop Int) = min nanos.ceilMillis (capMillis max) ∧
      quantizeNanos nanos max = ms * millisecond := by
  have hcap := one_le_capMillis max
  cases nanos with
  | nan | negInf => exact absurd h id
  | posInf => exact ⟨capMillis max, hcap, (min_eq_right le_top).symm, rfl⟩
  | finite q =>
    have hq : 0 < q := h
    have hunit : (0 : ℚ) < (millisecond : Int) := Int.cast_pos.mpr (by decide)
    have hceil : 1 ≤ (q / millisecond).ceil :=
      Int.cast_pos.mp ((div_pos hq hunit).trans_le Rat.le_ceil)
    refine ⟨min (q / millisecond).ceil (capMillis max), le_min hceil hcap, WithTop.coe_min _ _, ?_⟩
    simp only [quantizeNanos]
    rw [if_neg (not_le.mpr hq), if_neg (not_lt.mpr hceil)]
    by_cases hle : capMillis max ≤ (q / millisecond).ceil
    · rw [if_pos hle, min_eq_right hle]
    · rw [if_neg hle, min_eq_left (not_le.mp hle).le]

/-- A delay is positive exactly when what was computed is. -/
theorem quantizeNanos_pos_iff {nanos : F64} {max : Int} :
    0 < quantizeNanos nanos max ↔ nanos.Positive := by
  constructor
  · intro hpos
    by_contra hnot
    rw [quantizeNanos_eq_zero max hnot] at hpos
    exact lt_irrefl 0 hpos
  · intro hpositive
    obtain ⟨ms, hms, -, heq⟩ := quantizeNanos_positive max hpositive
    rw [heq]
    exact Int.mul_pos (by omega) (by decide)

/-! ## A validated policy -/

/-- `lifecycle.RetryPolicy`, with the two fields the float arithmetic reads. -/
structure RetrySettings extends RetryPolicy where
  multiplier : F64
  jitter : F64
deriving DecidableEq

/-- `Validate`'s problems with `Max`. -/
def maxProblems (max : Int) : List String :=
  if max < millisecond then ["maximum delay must be at least 1ms"]
  else if max.tmod millisecond ≠ 0 then
    ["maximum delay must be a whole number of milliseconds"]
  else []

/-- `Validate`'s problems with `Multiplier`. -/
def growthProblems : F64 → List String
  | .finite x => if x < 1 then ["multiplier must be at least 1"] else []
  | _ => ["multiplier must be a finite number"]

/-- `Validate`'s problems with `Jitter`. -/
def fractionProblems : F64 → List String
  | .finite x => if x < 0 ∨ 1 < x then ["jitter must be between 0 and 1"] else []
  | _ => ["jitter must be a finite number"]

/-- `RetryPolicy.Validate`: the problems it reports. -/
def RetrySettings.validate (p : RetrySettings) : List String :=
  (if p.base ≤ 0 then ["base delay must be positive"] else []) ++ maxProblems p.max ++
    (if p.max < p.base then ["maximum delay must be at least the base delay"] else []) ++
    growthProblems p.multiplier ++ fractionProblems p.jitter

/-- An accepted `Max` is a positive whole number of milliseconds, no less than `Base`. -/
theorem validate_max {p : RetrySettings} (h : p.validate = []) :
    0 < p.base ∧ p.base ≤ p.max ∧ ∃ ms : Int, 1 ≤ ms ∧ p.max = ms * millisecond := by
  simp only [RetrySettings.validate, List.append_eq_nil_iff] at h
  obtain ⟨⟨⟨⟨hbase, hmax⟩, horder⟩, -⟩, -⟩ := h
  split_ifs at hbase with hpos
  split_ifs at horder with hle
  unfold maxProblems at hmax
  split_ifs at hmax with hsmall hwhole
  have hunit : millisecond = 1000000 := rfl
  rw [hunit] at hsmall
  obtain ⟨ms, hms⟩ := Int.dvd_of_tmod_eq_zero (not_not.mp hwhole)
  rw [hunit] at hms ⊢
  exact ⟨by omega, by omega, ms, by omega, by omega⟩

/-- The delay of a validated policy is within its `Max`. -/
theorem quantizeNanos_le_max {p : RetrySettings} (h : p.validate = []) (nanos : F64) :
    quantizeNanos nanos p.max ≤ p.max := by
  obtain ⟨hbase, hle, ms, hms, hmax⟩ := validate_max h
  have hunit : millisecond = 1000000 := rfl
  have hcap : capMillis p.max ≤ ms := by
    have hdiv : p.max / millisecond = ms := by rw [hmax, hunit]; omega
    unfold capMillis
    rw [hdiv]
    split_ifs <;> omega
  by_cases hpos : nanos.Positive
  · obtain ⟨n, -, hn, heq⟩ := quantizeNanos_positive p.max hpos
    have hncap : n ≤ capMillis p.max := WithTop.coe_le_coe.mp (hn.trans_le (min_le_right _ _))
    rw [heq, hmax, hunit]
    omega
  · rw [quantizeNanos_eq_zero p.max hpos]
    omega

/-! ## What is recorded -/

/-- `RetryPolicy.Delay` is positive exactly when the computed backoff is. -/
theorem delay_pos_iff {p : RetryPolicy} {n : ℕ} {backoff : ℕ → F64} :
    0 < p.delay n backoff ↔ (backoff (if n < 1 then 1 else n)).Positive := by
  unfold RetryPolicy.delay
  rw [quantizeNanos_pos_iff]
  cases backoff (if n < 1 then 1 else n) with
  | nan | posInf => exact Iff.rfl
  | negInf => exact iff_of_false (lt_irrefl 0) id
  | finite q =>
    by_cases hq : q < 0
    · simp only [if_pos hq]
      exact iff_of_false (lt_irrefl 0) hq.not_gt
    · simp only [if_neg hq]

section RetryRecord

variable {env : Env} {db db' : DB} {state : FenceState} {fence : Fence} {o : AttemptOutcome}
  {d : Decision} {r : OutcomeResult}

/-- What a retry leaves behind: one number of milliseconds in the attempt's delay, in its
instant, in the answer, and behind the job's status. -/
structure RetryRecorded (state : FenceState) (fence : Fence) (d : Decision) (ms : Int)
    (r : OutcomeResult) (db' : DB) : Prop where
  delay : d.delay = ms * millisecond
  attempt : ∃ a ∈ db'.attempts.rows, a.id = fence.attemptID ∧ a.retryDelayMs = some ms ∧
    a.retryAt = some (state.serverNow + ms * 1000)
  answer : r.retryDelay = some d.delay ∧ r.retryAt = some (state.serverNow + ms * 1000)
  job : ∃ j ∈ db'.jobs.rows, j.id = fence.jobID ∧ j.status = r.jobStatus
  status : r.jobStatus = if 0 < d.delay then .retryWait else .queued

theorem finalizeAttempt_records (hretry : d.retry = true)
    (hwhole : ∃ ms : Int, 0 ≤ ms ∧ d.delay = ms * millisecond)
    (h : finalizeAttempt env db state fence o d = .ok (r, db')) :
    ∃ ms : Int, RetryRecorded state fence d ms r db' := by
  obtain ⟨ms, hms, hdelay⟩ := hwhole
  have hunit : millisecond = 1000000 := rfl
  have hstored : storedMillis d = ms := by
    rw [storedMillis, hdelay, hunit]
    omega
  have hinstant : storedRetryAt d state.serverNow = state.serverNow + ms * 1000 := by
    rw [storedRetryAt, hstored, storeTime, goTime, hunit]
    omega
  have hsign : 0 < d.delay ↔ 0 < ms := by
    rw [hdelay, hunit]
    omega
  simp only [finalizeAttempt, bind_eq_ok, ite_eq_ok, pure_eq_ok, Prod.mk.injEq] at h
  obtain ⟨⟨a', attempts'⟩, hatt, leases', -, hrest⟩ := h
  obtain ⟨a, -, hpa, rfl, hmem⟩ := updateReturning_mem hatt
  rw [Bool.and_eq_true, beq_iff_eq] at hpa
  have hms' : (finalizedAttempt o d state.serverNow a).retryDelayMs = some ms := by
    rw [← hstored]
    exact if_pos hretry
  have hat : (finalizedAttempt o d state.serverNow a).retryAt =
      some (state.serverNow + ms * 1000) := by
    rw [← hinstant]
    exact if_pos hretry
  have hanswer : (finalizedAttempt o d state.serverNow a).retryDelayMs.map (· * millisecond) =
      some d.delay := by
    rw [hms', hdelay]
    rfl
  refine ⟨ms, ?_⟩
  rw [hstored] at hrest
  rcases hrest with ⟨-, ⟨hpos, jobs', hjobs, rfl, rfl⟩ |
    ⟨hzero, ⟨generation, jobs'⟩, hreq, outbox', -, rfl, rfl⟩⟩ | ⟨hdead, -⟩
  · obtain ⟨j, -, hpj, hjmem⟩ := updateOne_mem hjobs
    rw [Bool.and_eq_true, beq_iff_eq] at hpj
    exact ⟨hdelay, ⟨_, hmem, hpa.1, hms', hat⟩, ⟨hanswer, hat⟩, ⟨_, hjmem, hpj.1, rfl⟩,
      (if_pos (hsign.mpr hpos)).symm⟩
  · simp only [requeueJob, bind_eq_ok, pure_eq_ok, Prod.mk.injEq] at hreq
    obtain ⟨⟨j', jobs''⟩, hupd, -, rfl⟩ := hreq
    obtain ⟨j, -, hpj, rfl, hjmem⟩ := updateReturning_mem hupd
    rw [Bool.and_eq_true, beq_iff_eq] at hpj
    exact ⟨hdelay, ⟨_, hmem, hpa.1, hms', hat⟩, ⟨hanswer, hat⟩, ⟨_, hjmem, hpj.1, rfl⟩,
      (if_neg fun hpos => hzero (hsign.mp hpos)).symm⟩
  · exact absurd hretry hdead

/-- A decision to retry waits the policy's delay, except after an abandonment. -/
theorem decide_retry_delay {p : RetryPolicy} {class_ : FailureClass} {n used : ℕ}
    {maxAttempts : Int} {backoff : ℕ → F64}
    (h : p.decide class_ n used maxAttempts backoff = .ok d) (hretry : d.retry = true)
    (hclass : class_ ≠ .abandoned) : d.delay = p.delay n backoff := by
  unfold RetryPolicy.decide at h
  cases class_ with
  | permanent => cases h; cases hretry
  | canceled | other => cases h
  | retryable | timedOut =>
    dsimp only at h
    split_ifs at h
    · cases h; rfl
    · cases h; cases hretry
  | abandoned => exact absurd rfl hclass

end RetryRecord

/-- **The retry delay is exact and bounded.** Nothing overflows; a delay that is not
positive is zero, and a positive one is its ceiling in milliseconds, capped, and at least
one; it is within `Max` for a validated policy. A retry is recorded with that value in
the attempt, its instant, the answer and the job's status, so the job waits exactly when
the computed backoff was positive. -/
theorem retry_delay_exact :
    (∀ (nanos : F64) (max : Int64),
      quantizeChecked nanos max.toInt = some (quantizeNanos nanos max.toInt) ∧
      (¬ nanos.Positive → quantizeNanos nanos max.toInt = 0) ∧
      (nanos.Positive → ∃ ms : Int, 1 ≤ ms ∧
        (ms : WithTop Int) = min nanos.ceilMillis (capMillis max.toInt) ∧
        quantizeNanos nanos max.toInt = ms * millisecond)) ∧
    (∀ p : RetrySettings, p.validate = [] → ∀ nanos : F64,
      0 ≤ quantizeNanos nanos p.max ∧ quantizeNanos nanos p.max ≤ p.max) ∧
    (∀ (env : Env) (db db' : DB) (state : FenceState) (fence : Fence) (o : AttemptOutcome)
      (class_ : FailureClass) (n used : ℕ) (maxAttempts : Int) (d : Decision) (r : OutcomeResult),
      env.retryPolicy.decide class_ n used maxAttempts env.backoff = .ok d → d.retry = true →
      finalizeAttempt env db state fence o d = .ok (r, db') →
      (∃ ms : Int, RetryRecorded state fence d ms r db') ∧
      (class_ ≠ .abandoned → d.delay = env.retryPolicy.delay n env.backoff ∧
        (r.jobStatus = .retryWait ↔ (env.backoff (if n < 1 then 1 else n)).Positive) ∧
        (r.jobStatus = .queued ↔ ¬ (env.backoff (if n < 1 then 1 else n)).Positive))) := by
  refine ⟨?_, ?_, ?_⟩
  · intro nanos max
    exact ⟨quantizeChecked_eq nanos max, quantizeNanos_eq_zero _, quantizeNanos_positive _⟩
  · intro p hp nanos
    obtain ⟨ms, hms, heq⟩ := quantizeNanos_whole_millis nanos p.max
    refine ⟨?_, quantizeNanos_le_max hp nanos⟩
    rw [heq]
    exact Int.mul_nonneg hms (by decide)
  · intro env db db' state fence o class_ n used maxAttempts d r hdecide hretry hfin
    obtain ⟨ms, hrecorded⟩ :=
      finalizeAttempt_records hretry ((decide_sound hdecide).retry_delay hretry) hfin
    refine ⟨⟨ms, hrecorded⟩, fun hclass => ?_⟩
    have hdelay := decide_retry_delay hdecide hretry hclass
    refine ⟨hdelay, ?_⟩
    rw [hrecorded.status, ← delay_pos_iff (p := env.retryPolicy), ← hdelay]
    by_cases hpos : 0 < d.delay
    · rw [if_pos hpos]
      exact ⟨iff_of_true rfl hpos, iff_of_false nofun (not_not.mpr hpos)⟩
    · rw [if_neg hpos]
      exact ⟨iff_of_false nofun hpos, iff_of_true rfl hpos⟩

/-- What the failure report of the sample run finds. -/
def sampleState : FenceState :=
  ⟨"default", "tenant", .running, .running, .active, 30000003, 5, 0, none, 1, 3, some 60000004, none,
    none, none, none, none, none, true⟩

/-- A computed backoff of 1.5 ms is two milliseconds, and the job waits them. -/
theorem retry_delay_exact_sample :
    ∃ r db', finalizeAttempt { envAt 5 0 0 with backoff := fun _ => .finite 1500000 }
        (quiet.exec sampleStart).2.db sampleState sampleFence
        ⟨.failed, .retryable, "upstream", "it broke", some 20, .released⟩ ⟨true, 2000000, none⟩ =
          .ok (r, db') ∧
      r.jobStatus = .retryWait ∧ (∃ a ∈ db'.attempts.rows, a.retryDelayMs = some 2) := by
  have hok : (finalizeAttempt { envAt 5 0 0 with backoff := fun _ => .finite 1500000 }
      (quiet.exec sampleStart).2.db sampleState sampleFence
      ⟨.failed, .retryable, "upstream", "it broke", some 20, .released⟩
      ⟨true, 2000000, none⟩).isOk = true := by decide +kernel
  cases hfin : finalizeAttempt { envAt 5 0 0 with backoff := fun _ => .finite 1500000 }
      (quiet.exec sampleStart).2.db sampleState sampleFence
      ⟨.failed, .retryable, "upstream", "it broke", some 20, .released⟩ ⟨true, 2000000, none⟩ with
  | error e =>
    rw [hfin] at hok
    cases hok
  | ok p =>
    obtain ⟨⟨ms, hrecorded⟩, hstatus⟩ := retry_delay_exact.2.2 _ _ _ _ _ _ .retryable 1 1 3 _ _
      (by decide +kernel) rfl hfin
    obtain ⟨-, hwaits, -⟩ := hstatus nofun
    obtain ⟨a, ha, -, hms, -⟩ := hrecorded.attempt
    have hdelay : (2000000 : Int) = ms * 1000000 := hrecorded.delay
    have hpositive : (0 : ℚ) < 1500000 := by norm_num
    exact ⟨p.1, p.2, rfl, hwaits.mpr hpositive, a, ha, by rw [hms, show ms = 2 by omega]⟩

end TaskForge
