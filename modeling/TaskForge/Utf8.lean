/-
Byte strings as text.

A Go string is a sequence of bytes, and ranging over it decodes one character at a
time: a byte that begins no character is read as U+FFFD, and one byte is consumed.
So every byte string has runes, and only some are the encoding of their runes. A
database that takes text takes those.
-/
import Mathlib.Data.List.Basic
import Mathlib.Data.String.Basic

namespace Utf8

/-- The bytes of a text. -/
def encode (t : List Char) : List UInt8 := t.flatMap String.utf8EncodeChar

/-- The character a byte string begins with, if it begins with one. -/
def firstRune (bytes : List UInt8) : Option Char := bytes.toByteArray.utf8DecodeChar? 0

/-- The runes of a byte string, `skip` bytes of it consumed already. -/
def runesFrom : ℕ → List UInt8 → List Char
  | _, [] => []
  | skip + 1, _ :: rest => runesFrom skip rest
  | 0, b :: rest =>
    match firstRune (b :: rest) with
    | some c => c :: runesFrom (c.utf8Size - 1) rest
    | none => '\ufffd' :: runesFrom 0 rest

/-- What `range` over a Go string yields. -/
def runes (bytes : List UInt8) : List Char := runesFrom 0 bytes

/-- The text a byte string encodes, if it encodes one. -/
def text (bytes : List UInt8) : Option String := String.fromUTF8? bytes.toByteArray

theorem encode_cons (c : Char) (t : List Char) :
    encode (c :: t) = String.utf8EncodeChar c ++ encode t := List.flatMap_cons

theorem toByteArray_encode (t : List Char) : (encode t).toByteArray = t.utf8Encode := rfl

theorem firstRune_encode (c : Char) (rest : List UInt8) :
    firstRune (String.utf8EncodeChar c ++ rest) = some c := by
  rw [firstRune, List.toByteArray_append]
  exact ByteArray.utf8DecodeChar?_utf8EncodeChar_append

/-- The bytes to skip are skipped. -/
theorem runesFrom_append (skipped rest : List UInt8) :
    runesFrom skipped.length (skipped ++ rest) = runesFrom 0 rest := by
  induction skipped with
  | nil => rfl
  | cons b skipped ih => rw [List.length_cons, List.cons_append, runesFrom, ih]

/-- The runes of an encoded text are its characters. -/
theorem runes_encode (t : List Char) : runes (encode t) = t := by
  induction t with
  | nil => rfl
  | cons c t ih =>
    have hfirst := firstRune_encode c (encode t)
    have hlength := String.length_utf8EncodeChar c
    rw [encode_cons]
    cases hbytes : String.utf8EncodeChar c with
    | nil => exact absurd hbytes String.utf8EncodeChar_ne_nil
    | cons b bs =>
      rw [hbytes] at hfirst hlength
      rw [List.cons_append] at hfirst ⊢
      have hskip : c.utf8Size - 1 = bs.length := by
        rw [← hlength, List.length_cons, Nat.add_sub_cancel]
      rw [runes, runesFrom, hfirst]
      simp only
      rw [hskip, runesFrom_append]
      exact congrArg (c :: ·) ih

/-- A byte that goes on with a character. -/
def continues (b : UInt8) : Bool := b &&& 0xC0 == 0x80

/-- Every byte of a character but its first goes on with it. -/
theorem encodeChar_eq_cons (c : Char) :
    ∃ b bs, String.utf8EncodeChar c = b :: bs ∧ continues b = false ∧
      ∀ x ∈ bs, continues x = true := by
  have hfirst : ∀ n < 256, (UInt8.ofNat n).IsUTF8FirstByte →
      continues (UInt8.ofNat n) = false := by decide +kernel
  have hrest : ∀ n, continues (UInt8.ofNat (n % 64) + 128) = true := by
    have hall : ∀ m < 64, continues (UInt8.ofNat m + 128) = true := by decide
    exact fun n => hall _ (Nat.mod_lt n (by decide))
  have hzero := UInt8.isUTF8FirstByte_getElem_zero_utf8EncodeChar (c := c)
  have htail : ∀ x ∈ (String.utf8EncodeChar c).tail, continues x = true := by
    unfold String.utf8EncodeChar
    simp only
    split_ifs <;> simp [hrest]
  cases hbytes : String.utf8EncodeChar c with
  | nil => exact absurd hbytes String.utf8EncodeChar_ne_nil
  | cons b bs =>
    simp only [hbytes] at hzero htail
    have hb := hfirst b.toNat b.toNat_lt
    rw [UInt8.ofNat_toNat] at hb
    exact ⟨b, bs, rfl, hb hzero, htail⟩

theorem text_eq_some {bytes : List UInt8} {s : String} :
    text bytes = some s ↔ bytes = encode s.toList := by
  have hbytes : ∀ l l' : List UInt8, l.toByteArray = l'.toByteArray → l = l' := by
    intro l l' h
    simpa using congrArg (fun b : ByteArray => b.data.toList) h
  unfold text String.fromUTF8?
  split_ifs with hvalid
  · rw [Option.some.injEq]
    constructor
    · rintro rfl
      apply hbytes
      rw [toByteArray_encode, String.utf8Encode_toList]
      rfl
    · rintro rfl
      apply String.toByteArray_inj.mp
      rw [← String.utf8Encode_toList (b := s)]
      rfl
  · constructor
    · intro h
      cases h
    · rintro rfl
      exact absurd ByteArray.isValidUTF8_utf8Encode hvalid

end Utf8
