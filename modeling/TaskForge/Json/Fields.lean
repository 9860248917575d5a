/-
The fields of a Go struct as JSON.

An integer is printed as a decimal literal, a string with its characters escaped, a
slice of strings as an array of them.
-/
import TaskForge.Json.Styles

namespace Json

/-! ## Integers -/

/-- An integer as Go prints it. -/
def intText : Int → Text
  | .ofNat n => Nat.toDigits 10 n
  | .negSucc n => '-' :: Nat.toDigits 10 (n + 1)

def readNat (t : Text) : Option ℕ :=
  if t ≠ [] ∧ t.all isDigit then some (Nat.ofDigitChars 10 t 0) else none

/-- An integer of any size. -/
def readSigned : Text → Option Int
  | [] => none
  | c :: r =>
    if c = '-' then (readNat r).map (fun n => -Int.ofNat n) else (readNat (c :: r)).map Int.ofNat

theorem isDigit_of_mem_toDigits {n : ℕ} {c : Char} (h : c ∈ Nat.toDigits 10 n) :
    isDigit c = true := by
  have hc := Nat.isDigit_of_mem_toDigits (by decide) (by decide) h
  simpa [Char.isDigit, isDigit, Char.le_def] using hc

theorem readNat_toDigits (n : ℕ) : readNat (Nat.toDigits 10 n) = some n := by
  rw [readNat, if_pos ⟨Nat.toDigits_ne_nil, List.all_eq_true.mpr fun c hc =>
    isDigit_of_mem_toDigits hc⟩, Nat.ofDigitChars_ten_toDigits]

theorem readSigned_intText (n : Int) : readSigned (intText n) = some n := by
  cases n with
  | ofNat n =>
    have hread := readNat_toDigits n
    rw [intText]
    cases hd : Nat.toDigits 10 n with
    | nil => exact absurd hd Nat.toDigits_ne_nil
    | cons c r =>
      have hc : isDigit c = true := isDigit_of_mem_toDigits (n := n) (hd ▸ List.mem_cons_self)
      have hne : c ≠ '-' := by
        rintro rfl
        exact absurd hc (by decide)
      rw [hd] at hread
      rw [readSigned, if_neg hne, hread, Option.map_some]
  | negSucc n =>
    rw [intText, readSigned, if_pos rfl, readNat_toDigits, Option.map_some]
    rfl

/-! ## Strings and slices -/

def stringValue (s : String) : Value := .string s.toList
def intValue (n : Int) : Value := .number (intText n)
def stringsValue (ss : List String) : Value := .array (ss.map stringValue)

end Json
