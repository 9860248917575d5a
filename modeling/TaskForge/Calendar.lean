/-
The proleptic Gregorian calendar and RFC 3339, as Go's `time` package reads it.

An instant is a number of nanoseconds since 1970-01-01T00:00:00Z. A year is found
from an instant by its average length, and then moved by at most one
(`yearOfDay_bounds`); everything said about the year of an instant rests on these
bounds. What the writer writes, the reader reads back (`parse_format`), and what the
reader reads is within four-digit years and an offset (`parseRFC3339_bounds`). The
reader is `time.Parse` with the layout `time.RFC3339`: it takes an hour of one digit, a
comma for the decimal point, and offsets of up to 24 hours and 60 minutes, all of which
the layout's name would not suggest.
-/
import Mathlib.Algebra.Order.Ring.Int
import Mathlib.Data.List.Basic
import Mathlib.Data.List.DropRight
import Mathlib.Tactic.Ring

namespace Calendar

/-! ## Years and days -/

/-- The days from 1970-01-01 to the first day of a year. -/
def yearStart (y : Int) : Int :=
  365 * y + (y + 3) / 4 - (y + 99) / 100 + (y + 399) / 400 - 719528

def isLeap (y : Int) : Bool := y % 4 == 0 && (y % 100 != 0 || y % 400 == 0)

/-- The days of a month, from 1 to 12, of a leap year or another. -/
def daysIn (leap : Bool) (month : ℕ) : ℕ :=
  if month = 2 then (if leap then 29 else 28)
  else if month = 4 ∨ month = 6 ∨ month = 9 ∨ month = 11 then 30 else 31

/-- The days of a year before a month. -/
def daysBefore (leap : Bool) (month : ℕ) : ℕ :=
  ((List.range (month - 1)).map fun m => daysIn leap (m + 1)).sum

/-- The days from 1970-01-01 to a date. -/
def civil (y : Int) (month day : ℕ) : Int := yearStart y + daysBefore (isLeap y) month + day - 1

def nanosPerDay : Int := 86400 * 1000000000

/-- The year as the average length of one tells it, at most one off. -/
def yearGuess (days : Int) : Int := (days + 719528) * 400 / 146097

/-- The year a day is in. -/
def yearOfDay (days : Int) : Int :=
  if days < yearStart (yearGuess days) then yearGuess days - 1
  else if yearStart (yearGuess days + 1) ≤ days then yearGuess days + 1
  else yearGuess days

/-- The UTC year of an instant. -/
def yearOf (nanos : Int) : Int := yearOfDay (nanos / nanosPerDay)

variable {y z lo hi nanos : Int} {n month day : ℕ} {s : Stamp} {leap : Bool} {t r r' : Text}
  {c : Char}

theorem yearStart_lt (h : y < z) : yearStart y < yearStart z := by
  unfold yearStart
  omega

theorem yearStart_le_iff : yearStart y ≤ yearStart z ↔ y ≤ z := by
  constructor
  · intro h
    by_contra hlt
    have := yearStart_lt (not_le.mp hlt)
    omega
  · intro h
    rcases h.lt_or_eq with h | rfl
    · exact (yearStart_lt h).le
    · exact le_rfl

/-- The guess is at most one year off. -/
theorem yearGuess_near (days : Int) :
    yearStart (yearGuess days - 1) ≤ days ∧ days < yearStart (yearGuess days + 2) := by
  unfold yearGuess
  constructor
  · unfold yearStart
    omega
  · unfold yearStart
    omega

theorem yearOfDay_bounds (days : Int) :
    yearStart (yearOfDay days) ≤ days ∧ days < yearStart (yearOfDay days + 1) := by
  obtain ⟨hlo, hhi⟩ := yearGuess_near days
  unfold yearOfDay
  split_ifs with hbefore hafter
  · exact ⟨hlo, by rw [sub_add_cancel]; exact hbefore⟩
  · refine ⟨hafter, ?_⟩
    rw [add_assoc]
    exact hhi
  · exact ⟨not_lt.mp hbefore, not_le.mp hafter⟩

/-- A day is in the years from `lo` to `hi` exactly when it is between their bounds. -/
theorem yearOfDay_between {days : Int} :
    (lo ≤ yearOfDay days ∧ yearOfDay days ≤ hi) ↔
      yearStart lo ≤ days ∧ days < yearStart (hi + 1) := by
  obtain ⟨hfrom, hto⟩ := yearOfDay_bounds days
  constructor
  · rintro ⟨hlo, hhi⟩
    exact ⟨(yearStart_le_iff.mpr hlo).trans hfrom,
      hto.trans_le (yearStart_le_iff.mpr (by omega))⟩
  · rintro ⟨hlo, hhi⟩
    constructor
    · by_contra hlt
      have := yearStart_le_iff.mpr (show yearOfDay days + 1 ≤ lo by omega)
      omega
    · by_contra hlt
      have := yearStart_le_iff.mpr (show hi + 1 ≤ yearOfDay days by omega)
      omega

theorem yearOf_between :
    (lo ≤ yearOf nanos ∧ yearOf nanos ≤ hi) ↔
      yearStart lo * nanosPerDay ≤ nanos ∧ nanos < yearStart (hi + 1) * nanosPerDay := by
  unfold yearOf
  rw [yearOfDay_between]
  have hpos : 0 < nanosPerDay := by decide
  rw [Int.le_ediv_iff_mul_le hpos, Int.ediv_lt_iff_lt_mul hpos]

/-! ## RFC 3339 -/

abbrev Text := List Char

def digitOf (c : Char) : Option ℕ :=
  if '0' ≤ c ∧ c ≤ '9' then some (c.toNat - 48) else none

/-- Exactly `n` digits. -/
def fixedDigits : ℕ → ℕ → Text → Option (ℕ × Text)
  | 0, acc, t => some (acc, t)
  | _ + 1, _, [] => none
  | n + 1, acc, c :: r => (digitOf c).bind fun d => fixedDigits n (10 * acc + d) r

/-- `getnum`, where a number of one digit is taken too. -/
def oneOrTwoDigits : Text → Option (ℕ × Text)
  | [] => none
  | c :: r => (digitOf c).map fun d =>
    match r with
    | [] => (d, r)
    | c' :: r' =>
      match digitOf c' with
      | some d' => (10 * d + d', r')
      | none => (d, r)

def expect (mark : Char) : Text → Option Text
  | [] => none
  | c :: r => if c = mark then some r else none

/-- `parseNanoseconds` on what follows the seconds: a point or a comma with digits, of
which nine count, or nothing. -/
def fraction : Text → ℕ × Text
  | [] => (0, [])
  | c :: r =>
    if (c = '.' ∨ c = ',') ∧ (r.head?.bind digitOf).isSome then
      let taken := (r.takeWhile fun c => (digitOf c).isSome).take 9
      (taken.foldl (fun acc c => 10 * acc + (digitOf c).getD 0) 0 * 10 ^ (9 - taken.length),
        r.dropWhile fun c => (digitOf c).isSome)
    else (0, c :: r)

/-- `Z`, or a signed offset of hours and minutes, in seconds east of UTC. -/
def zone : Text → Option Int
  | ['Z'] => some 0
  | s :: r => do
    let sign ← if s = '+' then some 1 else if s = '-' then some (-1) else none
    let hours ← fixedDigits 2 0 r
    let minutes ← fixedDigits 2 0 (← expect ':' hours.2)
    if hours.1 ≤ 24 ∧ minutes.1 ≤ 60 ∧ minutes.2 = [] then
      some (sign * ((hours.1 * 60 + minutes.1) * 60 : ℕ))
    else none
  | [] => none

/-- A date and a time of day, with the offset they are written in. -/
structure Stamp where
  year : ℕ
  month : ℕ
  day : ℕ
  hour : ℕ
  minute : ℕ
  second : ℕ
  nanos : ℕ
  offset : Int
deriving DecidableEq, Repr

/-- What `time.Parse` checks beyond the digits. -/
def Stamp.valid (s : Stamp) : Bool :=
  1 ≤ s.month && s.month ≤ 12 && 1 ≤ s.day && s.day ≤ daysIn (isLeap s.year) s.month &&
    s.hour < 24 && s.minute < 60 && s.second < 60

/-- The instant a stamp names. -/
def Stamp.instant (s : Stamp) : Int :=
  (civil s.year s.month s.day * 86400 + (s.hour * 3600 + s.minute * 60 + s.second : ℕ) - s.offset) *
    1000000000 + s.nanos

/-- Year, month and day, and the `T` after them. -/
def scanDate (t : Text) : Option ((ℕ × ℕ × ℕ) × Text) := do
  let year ← fixedDigits 4 0 t
  let month ← fixedDigits 2 0 (← expect '-' year.2)
  let day ← fixedDigits 2 0 (← expect '-' month.2)
  pure ((year.1, month.1, day.1), ← expect 'T' day.2)

/-- Hour, minute and second. -/
def scanTime (t : Text) : Option ((ℕ × ℕ × ℕ) × Text) := do
  let hour ← oneOrTwoDigits t
  let minute ← fixedDigits 2 0 (← expect ':' hour.2)
  let second ← fixedDigits 2 0 (← expect ':' minute.2)
  pure ((hour.1, minute.1, second.1), second.2)

/-- The stamp a text spells. -/
def scanStamp (t : Text) : Option Stamp := do
  let date ← scanDate t
  let time ← scanTime date.2
  let offset ← zone (fraction time.2).2
  pure ⟨date.1.1, date.1.2.1, date.1.2.2, time.1.1, time.1.2.1, time.1.2.2, (fraction time.2).1,
    offset⟩

/-- `time.Parse(time.RFC3339, …)` -/
def parseRFC3339 (t : Text) : Option Int := do
  let stamp ← scanStamp t
  if stamp.valid then some stamp.instant else none

example : parseRFC3339 "1970-01-02T00:00:00.5+01:00".toList = some (82800500000000) := by decide

/-! ## Writing an instant -/

/-- The month, from 1 to 12, and the day of the month, from 1, of a day of a year,
from 0. -/
def monthDay (leap : Bool) (day : ℕ) : ℕ × ℕ :=
  let month := (List.range 12).countP fun m => daysBefore leap (m + 1) ≤ day
  (month, day - daysBefore leap month + 1)

def digitChar (n : ℕ) : Char := Char.ofNat (48 + n % 10)

/-- The number in exactly `width` decimal digits. -/
def padded : ℕ → ℕ → Text
  | 0, _ => []
  | width + 1, n => digitChar (n / 10 ^ width) :: padded width n

/-- The fraction of a second without its trailing zeros. -/
def fractionText (nanos : ℕ) : Text :=
  if nanos = 0 then [] else '.' :: (padded 9 nanos).rdropWhile (· == '0')

/-- The UTC stamp of an instant. -/
def stampOf (nanos : Int) : Stamp :=
  let day := nanos / nanosPerDay
  let ofDay := (nanos % nanosPerDay).toNat
  let date := monthDay (isLeap (yearOfDay day)) (day - yearStart (yearOfDay day)).toNat
  { year := (yearOfDay day).toNat, month := date.1, day := date.2
    hour := ofDay / 3600000000000, minute := ofDay / 60000000000 % 60
    second := ofDay / 1000000000 % 60, nanos := ofDay % 1000000000, offset := 0 }

def dateText (year month day : ℕ) : Text :=
  padded 4 year ++ '-' :: padded 2 month ++ '-' :: padded 2 day ++ ['T']

def timeText (hour minute second : ℕ) : Text :=
  padded 2 hour ++ ':' :: padded 2 minute ++ ':' :: padded 2 second

/-- A stamp in UTC. -/
def Stamp.text (s : Stamp) : Text :=
  dateText s.year s.month s.day ++ timeText s.hour s.minute s.second ++ fractionText s.nanos ++ ['Z']

/-- `Format(time.RFC3339Nano)` of an instant in UTC; none where the year does not fit
in four digits, where `time.Time` refuses to be encoded. -/
def formatRFC3339Nano (nanos : Int) : Option Text :=
  if 0 ≤ yearOf nanos ∧ yearOf nanos ≤ 9999 then some (stampOf nanos).text else none

example : formatRFC3339Nano 82800500000000 = some "1970-01-01T23:00:00.5Z".toList := by decide

/-- A year as `Format` writes it: a sign if it needs one, and at least four digits. -/
def yearText (y : Int) : Text :=
  (if y < 0 then ['-'] else []) ++
    if y.natAbs < 10000 then padded 4 y.natAbs else Nat.toDigits 10 y.natAbs

/-- `Format(time.RFC3339Nano)` of any instant, in UTC. -/
def appendRFC3339Nano (nanos : Int) : Text :=
  yearText (yearOf nanos) ++ (stampOf nanos).text.drop 4

/-! ### It is read back -/

theorem digitOf_digitChar (n : ℕ) : digitOf (digitChar n) = some (n % 10) := by
  have key : ∀ d : Fin 10, digitOf (Char.ofNat (48 + d)) = some d.val := by decide
  exact key ⟨n % 10, Nat.mod_lt _ (by omega)⟩

theorem fixedDigits_padded (width n acc : ℕ) (r : Text) :
    fixedDigits width acc (padded width n ++ r) = some (acc * 10 ^ width + n % 10 ^ width, r) := by
  induction width generalizing acc with
  | zero => simp [fixedDigits, padded, Nat.mod_one]
  | succ width ih =>
    rw [padded, List.cons_append, fixedDigits, digitOf_digitChar, Option.bind_some, ih,
      Nat.mod_pow_succ]
    congr 2
    ring

theorem fixedDigits_padded_of_lt {width : ℕ} (h : n < 10 ^ width) (r : Text) :
    fixedDigits width 0 (padded width n ++ r) = some (n, r) := by
  rw [fixedDigits_padded, Nat.mod_eq_of_lt h, zero_mul, zero_add]

theorem oneOrTwoDigits_padded (h : n < 100) (r : Text) :
    oneOrTwoDigits (padded 2 n ++ r) = some (n, r) := by
  simp only [padded, List.cons_append, List.nil_append, oneOrTwoDigits, digitOf_digitChar,
    Option.map_some, pow_zero, pow_one, Nat.div_one]
  congr 2
  omega

/-- The value of a run of digits. -/
def numeral (t : Text) : ℕ := t.foldl (fun acc c => 10 * acc + (digitOf c).getD 0) 0

theorem numeral_concat (t : Text) (c : Char) :
    numeral (t ++ [c]) = 10 * numeral t + (digitOf c).getD 0 := by
  rw [numeral, List.foldl_append]
  rfl

theorem numeral_zeros (t : Text) (k : ℕ) :
    numeral (t ++ List.replicate k '0') = numeral t * 10 ^ k := by
  induction k with
  | zero => simp
  | succ k ih =>
    rw [List.replicate_succ', ← List.append_assoc, numeral_concat, ih, pow_succ]
    have hzero : (digitOf '0').getD 0 = 0 := by decide
    rw [hzero]
    ring

theorem numeral_padded (width n : ℕ) : numeral (padded width n) = n % 10 ^ width := by
  have key : ∀ acc, (padded width n).foldl (fun acc c => 10 * acc + (digitOf c).getD 0) acc =
      acc * 10 ^ width + n % 10 ^ width := by
    induction width with
    | zero => intro acc; simp [padded, Nat.mod_one]
    | succ width ih =>
      intro acc
      rw [padded, List.foldl_cons, ih, digitOf_digitChar, Option.getD_some, Nat.mod_pow_succ]
      ring
  rw [numeral, key, zero_mul, zero_add]

theorem padded_length (width n : ℕ) : (padded width n).length = width := by
  induction width with
  | zero => rfl
  | succ width ih => rw [padded, List.length_cons, ih]

theorem padded_digits (width n : ℕ) : ∀ c ∈ padded width n, (digitOf c).isSome = true := by
  induction width with
  | zero => exact fun _ h => absurd h List.not_mem_nil
  | succ width ih =>
    exact List.forall_mem_cons.mpr ⟨by rw [digitOf_digitChar]; rfl, ih⟩

/-- A text is what is left without its trailing zeros, and those zeros. -/
theorem rdropWhile_zeros (t : Text) :
    ∃ k, t = t.rdropWhile (· == '0') ++ List.replicate k '0' := by
  induction t using List.reverseRecOn with
  | nil => exact ⟨0, rfl⟩
  | append_singleton t c ih =>
    rw [List.rdropWhile_concat]
    split_ifs with hc
    · obtain ⟨k, hk⟩ := ih
      refine ⟨k + 1, ?_⟩
      rw [List.replicate_succ', ← List.append_assoc, ← hk, beq_iff_eq.mp hc]
    · exact ⟨0, by simp⟩

theorem fraction_fractionText {nanos : ℕ} (h : nanos < 1000000000) :
    fraction (fractionText nanos ++ ['Z']) = (nanos, ['Z']) := by
  unfold fractionText
  split_ifs with hzero
  · rw [hzero]
    decide
  · obtain ⟨k, hk⟩ := rdropWhile_zeros (padded 9 nanos)
    generalize hkept : (padded 9 nanos).rdropWhile (· == '0') = kept at hk ⊢
    have hdigits : ∀ c ∈ kept, (digitOf c).isSome = true := fun c hc =>
      padded_digits 9 nanos c (by rw [hk]; exact List.mem_append_left _ hc)
    have hlength : kept.length + k = 9 := by
      have := padded_length 9 nanos
      rw [hk, List.length_append, List.length_replicate] at this
      exact this
    have hvalue : numeral kept * 10 ^ k = nanos := by
      rw [← numeral_zeros, ← hk, numeral_padded]
      exact Nat.mod_eq_of_lt (by omega)
    have hhead : (((kept ++ ['Z']).head?).bind digitOf).isSome = true := by
      cases kept with
      | nil =>
        rw [show numeral [] = 0 from rfl, zero_mul] at hvalue
        exact absurd hvalue.symm hzero
      | cons c kept => exact hdigits c List.mem_cons_self
    have hstop : (digitOf 'Z').isSome = false := by decide
    have htake : (kept ++ ['Z']).takeWhile (fun c => (digitOf c).isSome) = kept := by
      rw [List.takeWhile_append_of_pos hdigits, List.takeWhile_cons_of_neg (by rw [hstop]; decide),
        List.append_nil]
    have hdrop : (kept ++ ['Z']).dropWhile (fun c => (digitOf c).isSome) = ['Z'] := by
      rw [List.dropWhile_append_of_pos hdigits, List.dropWhile_cons_of_neg (by rw [hstop]; decide)]
    rw [List.cons_append, fraction, if_pos ⟨.inl rfl, hhead⟩]
    simp only [htake, hdrop, List.take_of_length_le (show kept.length ≤ 9 by omega)]
    rw [show 9 - kept.length = k by omega]
    exact congrArg (·, ['Z']) hvalue

/-- The fields of a stamp fit the digits they are written in. -/
structure Stamp.Fits (s : Stamp) : Prop where
  year : s.year < 10 ^ 4
  month : s.month < 10 ^ 2
  day : s.day < 10 ^ 2
  hour : s.hour < 100
  minute : s.minute < 10 ^ 2
  second : s.second < 10 ^ 2
  nanos : s.nanos < 1000000000
  offset : s.offset = 0

theorem expect_self (c : Char) (r : Text) : expect c (c :: r) = some r := if_pos rfl

theorem scanDate_dateText {year : ℕ} (hy : year < 10 ^ 4) (hm : month < 10 ^ 2)
    (hd : day < 10 ^ 2) (r : Text) :
    scanDate (dateText year month day ++ r) = some ((year, month, day), r) := by
  simp only [dateText, List.append_assoc, List.cons_append, List.nil_append]
  simp only [scanDate, fixedDigits_padded_of_lt hy, Option.bind_eq_bind, Option.bind_some,
    expect_self, fixedDigits_padded_of_lt hm, fixedDigits_padded_of_lt hd, Option.pure_def]

theorem scanTime_timeText {hour minute second : ℕ} (hh : hour < 100) (hm : minute < 10 ^ 2)
    (hs : second < 10 ^ 2) (r : Text) :
    scanTime (timeText hour minute second ++ r) = some ((hour, minute, second), r) := by
  simp only [timeText, List.append_assoc, List.cons_append]
  simp only [scanTime, oneOrTwoDigits_padded hh, Option.bind_eq_bind, Option.bind_some,
    expect_self, fixedDigits_padded_of_lt hm, fixedDigits_padded_of_lt hs, Option.pure_def]

theorem scanStamp_text (h : s.Fits) : scanStamp s.text = some s := by
  have hzone : zone ['Z'] = some 0 := rfl
  rw [Stamp.text, List.append_assoc, List.append_assoc]
  simp only [scanStamp, scanDate_dateText h.year h.month h.day, Option.bind_eq_bind,
    Option.bind_some, scanTime_timeText h.hour h.minute h.second, fraction_fractionText h.nanos,
    hzone, Option.pure_def]
  rw [← h.offset]

/-- A year has 366 days if it is a leap year, and 365 otherwise. -/
theorem yearStart_succ (y : Int) :
    yearStart (y + 1) = yearStart y + (if isLeap y then 366 else 365) := by
  have hleap : isLeap y = true ↔ y % 4 = 0 ∧ (y % 100 ≠ 0 ∨ y % 400 = 0) := by
    simp [isLeap]
  unfold yearStart
  split_ifs with h
  · rw [hleap] at h
    omega
  · rw [hleap] at h
    omega

/-- The date of a day of a year is a date of that year, and names that day. -/
theorem monthDay_spec (h : day < if leap then 366 else 365) :
    1 ≤ (monthDay leap day).1 ∧ (monthDay leap day).1 ≤ 12 ∧ 1 ≤ (monthDay leap day).2 ∧
      (monthDay leap day).2 ≤ daysIn leap (monthDay leap day).1 ∧
      daysBefore leap (monthDay leap day).1 + (monthDay leap day).2 = day + 1 := by
  -- There are 366 days to look at.
  obtain ⟨day, rfl⟩ : ∃ d : Fin 366, d.val = day := ⟨⟨day, by split_ifs at h <;> omega⟩, rfl⟩
  revert day
  cases leap <;> decide +kernel

/-- An instant is what its year and its stamp name, and the stamp is one of that year.
The stamp's own year is not part of this: it is a natural number. -/
structure Dates (y : Int) (s : Stamp) (nanos : Int) : Prop where
  month : 1 ≤ s.month ∧ s.month ≤ 12
  day : 1 ≤ s.day ∧ s.day ≤ daysIn (isLeap y) s.month
  hour : s.hour < 24
  minute : s.minute < 60
  second : s.second < 60
  fraction : s.nanos < 1000000000
  offset : s.offset = 0
  instant : (civil y s.month s.day * 86400 + (s.hour * 3600 + s.minute * 60 + s.second : ℕ)) *
    1000000000 + s.nanos = nanos

theorem stampOf_dates (nanos : Int) : Dates (yearOf nanos) (stampOf nanos) nanos := by
  obtain ⟨hfrom, hto⟩ := yearOfDay_bounds (nanos / nanosPerDay)
  have hpos : (0 : Int) < nanosPerDay := by decide
  have hmod0 := Int.emod_nonneg nanos hpos.ne'
  have hmod1 := Int.emod_lt_of_pos nanos hpos
  have hsplit := Int.emod_add_mul_ediv nanos nanosPerDay
  have hperDay : nanosPerDay = 86400000000000 := by decide
  have hyearOf : yearOf nanos = yearOfDay (nanos / nanosPerDay) := rfl
  rw [hyearOf]
  generalize hday : nanos / nanosPerDay = day at *
  generalize hrest : nanos % nanosPerDay = rest at *
  generalize hy : yearOfDay day = y at *
  obtain ⟨doy, hdoy⟩ : ∃ n : ℕ, day - yearStart y = n := ⟨(day - yearStart y).toNat, by omega⟩
  rw [yearStart_succ] at hto
  have hlength : doy < if isLeap y then 366 else 365 := by
    split_ifs at hto ⊢ <;> omega
  obtain ⟨hm1, hm12, hd1, hdin, hsum⟩ := monthDay_spec hlength
  have hstamp : stampOf nanos = ⟨y.toNat, (monthDay (isLeap y) doy).1, (monthDay (isLeap y) doy).2,
      rest.toNat / 3600000000000, rest.toNat / 60000000000 % 60, rest.toNat / 1000000000 % 60,
      rest.toNat % 1000000000, 0⟩ := by
    simp only [stampOf, hday, hrest, hy, hdoy, Int.toNat_natCast]
  rw [hperDay] at hsplit hmod1
  rw [hstamp]
  refine ⟨⟨hm1, hm12⟩, ⟨hd1, hdin⟩, ?_, ?_, ?_, ?_, rfl, ?_⟩
  · change rest.toNat / 3600000000000 < 24; omega
  · change rest.toNat / 60000000000 % 60 < 60; omega
  · change rest.toNat / 1000000000 % 60 < 60; omega
  · change rest.toNat % 1000000000 < 1000000000; omega
  · simp only [civil]
    omega

/-- A stamp of a year fits its digits, whatever year is written in it. -/
theorem Dates.fits (h : Dates y s nanos) (written : ℕ) (hyear : written < 10 ^ 4) :
    { s with year := written }.Fits := by
  have hdays : daysIn (isLeap y) s.month ≤ 31 := by
    unfold daysIn
    split_ifs <;> omega
  obtain ⟨hmonth, hday, hhour, hminute, hsecond, hfraction, hoffset, -⟩ := h
  refine ⟨hyear, ?_, ?_, ?_, ?_, ?_, hfraction, hoffset⟩
  · change s.month < 100; omega
  · change s.day < 100; omega
  · change s.hour < 100; omega
  · change s.minute < 100; omega
  · change s.second < 100; omega

/-- The stamp of an instant whose year has four digits is a valid one, and names that
instant. -/
theorem stampOf_spec (h : 0 ≤ yearOf nanos ∧ yearOf nanos ≤ 9999) :
    (stampOf nanos).Fits ∧ (stampOf nanos).valid = true ∧ (stampOf nanos).instant = nanos := by
  have hdates := stampOf_dates nanos
  have hycast : (((stampOf nanos).year : ℕ) : Int) = yearOf nanos := Int.toNat_of_nonneg h.1
  refine ⟨hdates.fits (stampOf nanos).year (by omega), ?_, ?_⟩
  · simp only [Stamp.valid, hycast, Bool.and_eq_true, decide_eq_true_eq]
    exact ⟨⟨⟨⟨⟨hdates.month, hdates.day.1⟩, hdates.day.2⟩, hdates.hour⟩, hdates.minute⟩,
      hdates.second⟩
  · rw [Stamp.instant, hycast, hdates.offset, sub_zero]
    exact hdates.instant

/-- What is written is read back as the same instant. -/
theorem parse_format (h : formatRFC3339Nano nanos = some t) :
    parseRFC3339 t = some nanos := by
  unfold formatRFC3339Nano at h
  split_ifs at h with hyear
  cases h
  obtain ⟨hfits, hvalid, hinstant⟩ := stampOf_spec hyear
  rw [parseRFC3339, scanStamp_text hfits]
  simp only [Option.bind_eq_bind, Option.bind_some, hvalid, if_true, hinstant]

theorem appendRFC3339Nano_eq (h : 0 ≤ yearOf nanos ∧ yearOf nanos ≤ 9999) :
    appendRFC3339Nano nanos = (stampOf nanos).text := by
  have hsign : ¬ yearOf nanos < 0 := by omega
  have hshort : (yearOf nanos).natAbs < 10000 := by omega
  have hyear : (stampOf nanos).year = (yearOf nanos).natAbs := by
    change (yearOf nanos).toNat = _
    omega
  have hdrop : ∀ rest : Text, (padded 4 (yearOf nanos).natAbs ++ rest).drop 4 = rest := by
    intro rest
    exact List.drop_left' (padded_length 4 _)
  rw [appendRFC3339Nano, yearText, if_neg hsign, if_pos hshort, List.nil_append, Stamp.text,
    dateText, hyear]
  simp only [List.append_assoc, hdrop]

theorem parse_append (h : 0 ≤ yearOf nanos ∧ yearOf nanos ≤ 9999) :
    parseRFC3339 (appendRFC3339Nano nanos) = some nanos := by
  rw [appendRFC3339Nano_eq h]
  exact parse_format (if_pos h)

/-! ### Any year -/

/-- What follows the year is the same whatever year is written. -/
theorem Stamp.text_year (s : Stamp) (written : ℕ) :
    padded 4 written ++ s.text.drop 4 = { s with year := written }.text := by
  have hdrop : ∀ rest : Text, (padded 4 s.year ++ rest).drop 4 = rest := by
    intro rest
    exact List.drop_left' (padded_length 4 _)
  simp only [Stamp.text, dateText, List.append_assoc, hdrop]

theorem Stamp.drop_four (s : Stamp) : ∃ r, s.text.drop 4 = '-' :: r := by
  have hdrop : ∀ rest : Text, (padded 4 s.year ++ rest).drop 4 = rest := by
    intro rest
    exact List.drop_left' (padded_length 4 _)
  simp only [Stamp.text, dateText, List.append_assoc, hdrop, List.cons_append]
  exact ⟨_, rfl⟩

theorem digitOf_toDigits (hc : c ∈ Nat.toDigits 10 n) :
    digitOf c = some (c.toNat - '0'.toNat) := by
  have hrange := Nat.isDigit_of_mem_toDigits (by decide) (by decide) hc
  simp only [Char.isDigit, Bool.and_eq_true, decide_eq_true_eq] at hrange
  exact if_pos hrange

theorem numeral_toDigits (n : ℕ) : numeral (Nat.toDigits 10 n) = n := by
  have hfold : numeral (Nat.toDigits 10 n) = Nat.ofDigitChars 10 (Nat.toDigits 10 n) 0 := by
    rw [numeral, Nat.ofDigitChars]
    refine List.foldl_ext _ _ 0 fun acc c hc => ?_
    rw [digitOf_toDigits hc, Option.getD_some]
  rw [hfold, Nat.ofDigitChars_ten_toDigits]

/-- The digits of a year, without its sign. -/
def yearDigits (y : ℕ) : Text := if y < 10000 then padded 4 y else Nat.toDigits 10 y

theorem numeral_yearDigits (y : ℕ) : numeral (yearDigits y) = y := by
  unfold yearDigits
  split_ifs with h
  · rw [numeral_padded]
    exact Nat.mod_eq_of_lt h
  · exact numeral_toDigits y

theorem yearDigits_digits (y : ℕ) : ∀ c ∈ yearDigits y, (digitOf c).isSome = true := by
  intro c hc
  unfold yearDigits at hc
  split_ifs at hc with h
  · exact padded_digits 4 y c hc
  · rw [digitOf_toDigits hc]
    rfl

theorem yearText_eq (y : Int) :
    yearText y = (if y < 0 then ['-'] else []) ++ yearDigits y.natAbs := rfl

/-- The digits of a year end where the dash before the month stands. -/
theorem yearDigits_append_inj {y y' : ℕ}
    (h : yearDigits y ++ '-' :: r = yearDigits y' ++ '-' :: r') : y = y' ∧ r = r' := by
  have htake : ∀ (y : ℕ) (r : Text),
      (yearDigits y ++ '-' :: r).takeWhile (fun c => (digitOf c).isSome) = yearDigits y := by
    intro y r
    rw [List.takeWhile_append_of_pos (yearDigits_digits y),
      List.takeWhile_cons_of_neg (by decide), List.append_nil]
  have hdigits : yearDigits y = yearDigits y' := by rw [← htake y r, h, htake]
  rw [hdigits] at h
  refine ⟨?_, (List.cons.inj (List.append_cancel_left h)).2⟩
  rw [← numeral_yearDigits y, hdigits, numeral_yearDigits]

/-- A year is read off its text, and off the dash after it. -/
theorem yearText_append_inj {y' : Int} (h : yearText y ++ '-' :: r = yearText y' ++ '-' :: r') :
    y = y' ∧ r = r' := by
  -- A sign in front tells a year before 0 from the others, whose first character is a digit.
  have hsigned : ∀ {n n' : ℕ} {r r' : Text}, '-' :: (yearDigits n ++ '-' :: r) ≠
      yearDigits n' ++ '-' :: r' := by
    intro n n' r r' heq
    cases hd : yearDigits n' with
    | nil =>
      rw [hd, List.nil_append, List.cons.injEq] at heq
      have hlen := congrArg numeral hd
      rw [numeral_yearDigits] at hlen
      rw [hlen] at hd
      exact absurd hd (by decide)
    | cons c cs =>
      rw [hd, List.cons_append, List.cons.injEq] at heq
      have hc := yearDigits_digits n' c (by rw [hd]; exact List.mem_cons_self)
      rw [← heq.1] at hc
      exact absurd hc (by decide)
  rw [yearText_eq, yearText_eq] at h
  by_cases hneg : y < 0
  · by_cases hneg' : y' < 0
    · rw [if_pos hneg, if_pos hneg'] at h
      obtain ⟨habs, hr⟩ := yearDigits_append_inj (List.cons.inj h).2
      exact ⟨by omega, hr⟩
    · rw [if_pos hneg, if_neg hneg', List.nil_append] at h
      exact absurd h hsigned
  · by_cases hneg' : y' < 0
    · rw [if_neg hneg, if_pos hneg', List.nil_append] at h
      exact absurd h.symm hsigned
    · rw [if_neg hneg, if_neg hneg', List.nil_append, List.nil_append] at h
      obtain ⟨habs, hr⟩ := yearDigits_append_inj h
      exact ⟨by omega, hr⟩

/-- Two instants of one year with one stamp are the same. -/
theorem Dates.unique {nanos' : Int} {s' : Stamp} (h : Dates y s nanos) (h' : Dates y s' nanos')
    (hs : { s with year := 0 } = { s' with year := 0 }) :
    nanos = nanos' := by
  simp only [Stamp.mk.injEq, true_and] at hs
  obtain ⟨hmonth, hday, hhour, hminute, hsecond, hnanos, -⟩ := hs
  rw [← h.instant, ← h'.instant, hmonth, hday, hhour, hminute, hsecond, hnanos]

/-- Instants are told apart by what `Format` writes. -/
theorem appendRFC3339Nano_injective : Function.Injective appendRFC3339Nano := by
  intro n n' h
  obtain ⟨r, hr⟩ := (stampOf n).drop_four
  obtain ⟨r', hr'⟩ := (stampOf n').drop_four
  rw [appendRFC3339Nano, appendRFC3339Nano, hr, hr'] at h
  obtain ⟨hyear, rfl⟩ := yearText_append_inj h
  have hdates := stampOf_dates n
  have hdates' := stampOf_dates n'
  -- The same text after the year, read with any year in front of it.
  have htext : { stampOf n with year := 0 }.text = { stampOf n' with year := 0 }.text :=
    calc { stampOf n with year := 0 }.text
        = padded 4 0 ++ (stampOf n).text.drop 4 := ((stampOf n).text_year 0).symm
      _ = padded 4 0 ++ (stampOf n').text.drop 4 := by rw [hr, hr']
      _ = { stampOf n' with year := 0 }.text := (stampOf n').text_year 0
  have hscan := scanStamp_text (hdates.fits 0 (by decide))
  rw [htext, scanStamp_text (hdates'.fits 0 (by decide)), Option.some.injEq] at hscan
  rw [← hyear] at hdates'
  exact hdates.unique hdates' hscan.symm

theorem fractionText_length_le (nanos : ℕ) : (fractionText nanos).length ≤ 10 := by
  unfold fractionText
  split_ifs
  · exact Nat.zero_le _
  · have hkept := (List.rdropWhile_prefix (· == '0') (padded 9 nanos)).length_le
    rw [padded_length] at hkept
    rw [List.length_cons]
    omega

/-- An instant of a year of at most five digits is written in few characters. -/
theorem appendRFC3339Nano_length_le (h : (yearOf nanos).natAbs < 10 ^ 5) :
    (appendRFC3339Nano nanos).length ≤ 40 := by
  have hyear : (yearDigits (yearOf nanos).natAbs).length ≤ 5 := by
    unfold yearDigits
    split_ifs
    · rw [padded_length]
      decide
    · exact (Nat.length_toDigits_le_iff (by decide) (by decide)).mpr h
  have hsign : (if yearOf nanos < 0 then ['-'] else []).length ≤ 1 := by
    split_ifs <;> simp
  have hfraction := fractionText_length_le (stampOf nanos).nanos
  simp only [appendRFC3339Nano, yearText_eq, Stamp.text, dateText, timeText, List.length_append,
    List.length_drop, List.length_cons, List.length_nil, padded_length]
  omega

/-- A stamp is written in digits and the marks between them. -/
theorem Stamp.text_chars (s : Stamp) :
    ∀ c ∈ s.text, (digitOf c).isSome = true ∨ c ∈ ['-', 'T', ':', '.', 'Z'] := by
  have hfraction : ∀ c ∈ fractionText s.nanos, (digitOf c).isSome = true ∨ c = '.' := by
    intro c hc
    unfold fractionText at hc
    split_ifs at hc
    · cases hc
    · rcases List.mem_cons.mp hc with rfl | hc
      · exact .inr rfl
      · exact .inl (padded_digits 9 _ c ((List.rdropWhile_prefix _ _).subset hc))
  intro c hc
  simp only [Stamp.text, dateText, timeText, List.mem_append, List.mem_cons, List.not_mem_nil,
    or_false] at hc ⊢
  have hdigits := fun width n => padded_digits width n c
  rcases hc with ((hc | hc) | hc) | hc
  · rcases hc with (((hc | hc | hc) | hc | hc) | hc)
    all_goals first | exact .inl (hdigits _ _ hc) | simp [hc]
  · rcases hc with ((hc | hc | hc) | hc | hc)
    all_goals first | exact .inl (hdigits _ _ hc) | simp [hc]
  · rcases hfraction c hc with hd | rfl
    · exact .inl hd
    · simp
  · simp [hc]

/-! ## What can be read -/

theorem digitOf_le {d : ℕ} (h : digitOf c = some d) : d ≤ 9 := by
  unfold digitOf at h
  split_ifs at h with hc
  cases h
  have hle : c.toNat ≤ 57 := hc.2
  omega

theorem fixedDigits_lt {acc : ℕ} {p : ℕ × Text} (h : fixedDigits n acc t = some p) :
    p.1 < (acc + 1) * 10 ^ n := by
  induction n generalizing acc t with
  | zero => cases h; omega
  | succ n ih =>
    cases t with
    | nil => cases h
    | cons c r =>
      rw [fixedDigits, Option.bind_eq_some_iff] at h
      obtain ⟨d, hd, h⟩ := h
      calc p.1 < (10 * acc + d + 1) * 10 ^ n := ih h
        _ ≤ (10 * (acc + 1)) * 10 ^ n := by
            have := digitOf_le hd
            gcongr
            omega
        _ = (acc + 1) * 10 ^ (n + 1) := by ring

theorem fraction_lt (t : Text) : (fraction t).1 < 1000000000 := by
  cases t with
  | nil => decide
  | cons c r =>
    rw [fraction]
    split_ifs
    · generalize htaken : (r.takeWhile fun c => (digitOf c).isSome).take 9 = taken
      have hlen : taken.length ≤ 9 := by rw [← htaken]; exact List.length_take_le 9 _
      have hnumeral : ∀ (u : Text) (acc : ℕ),
          u.foldl (fun acc c => 10 * acc + (digitOf c).getD 0) acc < (acc + 1) * 10 ^ u.length := by
        intro u
        induction u with
        | nil => intro acc; simp
        | cons c u ih =>
          intro acc
          have hd : (digitOf c).getD 0 ≤ 9 := by
            cases h : digitOf c with
            | none => exact Nat.zero_le 9
            | some d => exact digitOf_le h
          calc _ < (10 * acc + (digitOf c).getD 0 + 1) * 10 ^ u.length := ih _
            _ ≤ (10 * (acc + 1)) * 10 ^ u.length := by gcongr; omega
            _ = (acc + 1) * 10 ^ (c :: u).length := by rw [List.length_cons]; ring
      calc _ < ((0 + 1) * 10 ^ taken.length) * 10 ^ (9 - taken.length) :=
            Nat.mul_lt_mul_of_pos_right (hnumeral taken 0) (Nat.pow_pos (by decide))
        _ = 1000000000 := by
            rw [Nat.zero_add, Nat.one_mul, ← Nat.pow_add, Nat.add_sub_cancel' hlen]
    · exact Nat.zero_lt_succ _

theorem zone_bounds {offset : Int} (h : zone t = some offset) :
    -90000 ≤ offset ∧ offset ≤ 90000 := by
  cases t with
  | nil => cases h
  | cons s r =>
    by_cases hutc : s = 'Z' ∧ r = []
    · obtain ⟨rfl, rfl⟩ := hutc
      cases h
      decide
    · rw [zone] at h
      · simp only [Option.bind_eq_bind] at h
        split_ifs at h
        · simp only [Option.bind_some, Option.bind_eq_some_iff] at h
          obtain ⟨hours, -, rest, -, minutes, -, h⟩ := h
          split_ifs at h with hfits
          cases h
          omega
        · simp only [Option.bind_some, Option.bind_eq_some_iff] at h
          obtain ⟨hours, -, rest, -, minutes, -, h⟩ := h
          split_ifs at h with hfits
          cases h
          omega
        · cases h
      · exact fun hs hr => hutc ⟨hs, hr⟩

theorem daysBefore_add_le (h1 : 1 ≤ month) (h12 : month ≤ 12) (hday : day ≤ daysIn leap month) :
    daysBefore leap month + day ≤ 366 := by
  have key : ∀ (leap : Bool) (month : Fin 13), 1 ≤ month.val →
      daysBefore leap month + daysIn leap month ≤ 366 := by decide
  have := key leap ⟨month, by omega⟩ h1
  simp only at this
  omega

/-- A valid stamp names an instant of a four-digit year, give or take its offset. -/
theorem Stamp.instant_bounds (hvalid : s.valid = true) (hyear : s.year < 10000)
    (hnanos : s.nanos < 1000000000) (hoffset : -90000 ≤ s.offset ∧ s.offset ≤ 90000) :
    -62167309200000000000 ≤ s.instant ∧ s.instant < 253402480800000000000 := by
  simp only [Stamp.valid, Bool.and_eq_true, decide_eq_true_eq] at hvalid
  obtain ⟨⟨⟨⟨⟨⟨hm1, hm12⟩, hd1⟩, hday⟩, hhour⟩, hminute⟩, hsecond⟩ := hvalid
  have hdays := daysBefore_add_le hm1 hm12 hday
  have hlo : yearStart 0 ≤ yearStart s.year := yearStart_le_iff.mpr (by omega)
  have hhi : yearStart s.year ≤ yearStart 9999 := yearStart_le_iff.mpr (by omega)
  have hfirst : yearStart 0 = -719528 := by decide
  have hlast : yearStart 9999 = 2932532 := by decide
  unfold Stamp.instant civil
  omega

theorem parseRFC3339_bounds {n : Int} (h : parseRFC3339 t = some n) :
    -62167309200000000000 ≤ n ∧ n < 253402480800000000000 := by
  simp only [parseRFC3339, Option.bind_eq_bind, Option.bind_eq_some_iff] at h
  obtain ⟨s, hs, h⟩ := h
  split_ifs at h with hvalid
  cases h
  simp only [scanStamp, scanDate, Option.bind_eq_bind, Option.bind_eq_some_iff,
    Option.pure_def] at hs
  obtain ⟨date, ⟨year, hyear, _, -, month, -, _, -, day, -, _, -, hdate⟩, time, -, offset, hoffset,
    hs⟩ := hs
  cases hs
  cases hdate
  exact Stamp.instant_bounds hvalid (fixedDigits_lt hyear) (fraction_lt _) (zone_bounds hoffset)

end Calendar
