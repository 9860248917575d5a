/-
Base64 without padding, in the URL-safe alphabet (`base64.RawURLEncoding`).

Three bytes are four groups of six bits, and one or two bytes at the end are two or
three groups whose last bits are zero. A decoder drops line ends, turns characters
into groups and groups into bytes; it does not look at the bits a last group has to
spare. What was encoded is decoded as it was.
-/
import Mathlib.Data.List.Basic

namespace Base64

/-- The character of a group. -/
def digit (v : ℕ) : Char :=
  if v < 26 then Char.ofNat (65 + v)
  else if v < 52 then Char.ofNat (71 + v)
  else if v < 62 then Char.ofNat (v - 4)
  else if v = 62 then '-' else '_'

/-- The group of a character. -/
def value (c : Char) : Option ℕ :=
  if 'A' ≤ c ∧ c ≤ 'Z' then some (c.toNat - 65)
  else if 'a' ≤ c ∧ c ≤ 'z' then some (c.toNat - 71)
  else if '0' ≤ c ∧ c ≤ '9' then some (c.toNat + 4)
  else if c = '-' then some 62 else if c = '_' then some 63 else none

/-- The groups of six bits that bytes make. -/
def groups : List UInt8 → List ℕ
  | [] => []
  | [a] => [a.toNat / 4, a.toNat % 4 * 16]
  | [a, b] => [a.toNat / 4, a.toNat % 4 * 16 + b.toNat / 16, b.toNat % 16 * 4]
  | a :: b :: c :: rest =>
    a.toNat / 4 :: (a.toNat % 4 * 16 + b.toNat / 16) :: (b.toNat % 16 * 4 + c.toNat / 64) ::
      c.toNat % 64 :: groups rest

/-- The bytes that groups make; one group alone makes none. -/
def bytes : List ℕ → Option (List UInt8)
  | [] => some []
  | [_] => none
  | [p, q] => some [.ofNat (p * 4 + q / 16)]
  | [p, q, r] => some [.ofNat (p * 4 + q / 16), .ofNat (q % 16 * 16 + r / 4)]
  | p :: q :: r :: s :: rest =>
    (bytes rest).map fun tail =>
      .ofNat (p * 4 + q / 16) :: .ofNat (q % 16 * 16 + r / 4) :: .ofNat (r % 4 * 64 + s) :: tail

/-- `EncodeToString` -/
def encode (input : List UInt8) : List Char := (groups input).map digit

/-- `DecodeString` -/
def decode (text : List Char) : Option (List UInt8) := do
  let values ← (text.filter fun c => c != '\n' && c != '\r').mapM value
  bytes values

example : encode [84, 97, 115, 107] = "VGFzaw".toList := by decide

variable {v : ℕ} {vs : List ℕ} {text : List Char}

theorem value_digit (h : v < 64) : value (digit v) = some v := by
  have hall : ∀ v : Fin 64, value (digit v) = some v.val := by decide
  exact hall ⟨v, h⟩

/-- No character of the alphabet is a line end. -/
theorem digit_kept (h : v < 64) : (digit v != '\n' && digit v != '\r') = true := by
  have hall : ∀ v : Fin 64, (digit v != '\n' && digit v != '\r') = true := by decide
  exact hall ⟨v, h⟩

theorem groups_lt (input : List UInt8) : ∀ v ∈ groups input, v < 64 := by
  have hlt : ∀ a : UInt8, a.toNat < 256 := fun a => a.toNat_lt
  fun_induction groups input with
  | case1 => simp
  | case2 a =>
    have ha := hlt a
    intro v hv
    simp only [List.mem_cons, List.not_mem_nil, or_false] at hv
    omega
  | case3 a b =>
    have ha := hlt a
    have hb := hlt b
    intro v hv
    simp only [List.mem_cons, List.not_mem_nil, or_false] at hv
    omega
  | case4 a b c rest ih =>
    have ha := hlt a
    have hb := hlt b
    have hc := hlt c
    intro v hv
    simp only [List.mem_cons] at hv
    rcases hv with hv | hv | hv | hv | hv
    · omega
    · omega
    · omega
    · omega
    · exact ih v hv

/-- A byte is put together again from the number it was. -/
theorem ofNat_eq {n : ℕ} {a : UInt8} (h : n = a.toNat) : UInt8.ofNat n = a := by
  rw [h, UInt8.ofNat_toNat]

theorem bytes_groups (input : List UInt8) : bytes (groups input) = some input := by
  have hlt : ∀ a : UInt8, a.toNat < 256 := fun a => a.toNat_lt
  fun_induction groups input with
  | case1 => rfl
  | case2 a =>
    have ha := hlt a
    simp only [bytes, Option.some.injEq, List.cons.injEq, and_true]
    exact ofNat_eq (by omega)
  | case3 a b =>
    have ha := hlt a
    have hb := hlt b
    simp only [bytes, Option.some.injEq, List.cons.injEq, and_true]
    exact ⟨ofNat_eq (by omega), ofNat_eq (by omega)⟩
  | case4 a b c rest ih =>
    have ha := hlt a
    have hb := hlt b
    have hc := hlt c
    simp only [bytes, ih, Option.map_some, Option.some.injEq, List.cons.injEq, and_true]
    exact ⟨ofNat_eq (by omega), ofNat_eq (by omega), ofNat_eq (by omega)⟩

theorem mapM_value_digit (h : ∀ v ∈ vs, v < 64) :
    (vs.map digit).mapM value = some vs := by
  induction vs with
  | nil => rfl
  | cons v vs ih =>
    rw [List.map_cons, List.mapM_cons, value_digit (h v List.mem_cons_self),
      ih fun u hu => h u (List.mem_cons_of_mem v hu)]
    rfl

theorem filter_encode (input : List UInt8) :
    ((encode input).filter fun c => c != '\n' && c != '\r') = encode input := by
  refine List.filter_eq_self.mpr fun c hc => ?_
  obtain ⟨v, hv, rfl⟩ := List.mem_map.mp hc
  exact digit_kept (groups_lt input v hv)

/-- **What was encoded is decoded as it was.** -/
theorem decode_encode (input : List UInt8) : decode (encode input) = some input := by
  rw [decode, filter_encode, encode, mapM_value_digit (groups_lt input)]
  exact bytes_groups input

/-- Six bits a character. -/
theorem encode_length (input : List UInt8) :
    (encode input).length = (input.length * 8 + 5) / 6 := by
  rw [encode, List.length_map]
  fun_induction groups input with
  | case1 => rfl
  | case2 | case3 => simp
  | case4 a b c rest ih =>
    simp only [List.length_cons, ih]
    omega

/-! ## What no encoder writes

A decoder takes more texts than an encoder writes: those with line ends in them, and those
whose last group has bits that are not zero where no byte has any. -/

/-- The bits that the last group has to spare are zero. -/
def tight : List ℕ → Bool
  | [_, q] => q % 16 == 0
  | [_, _, r] => r % 4 == 0
  | _ :: _ :: _ :: _ :: rest => tight rest
  | _ => true

/-- There is no line end in the text, and no bit set that is to spare. -/
def canonical (text : List Char) : Bool :=
  (text.all fun c => c != '\n' && c != '\r') && (text.mapM value).all tight

end Base64
