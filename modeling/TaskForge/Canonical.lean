/-
`CanonicalJSON` as a normal form, and what it reads.

Accepted inputs have the same output exactly when their documents mean the same, where
an object is a map and a number is its spelling; an output is a fixed point
(`canonical_normal_form`). What is accepted is more than one document, though: the
check for trailing content asks `Decoder.More`, and `More` answers for the inside of an
array or an object, so a closing bracket after the document ends the check with
nothing said about what follows it (`canonical_reads_whole_iff`).

The input is bytes here. Go's decoder reads a byte that is no UTF-8 as U+FFFD inside a
string and refuses it elsewhere, which is what the reader of characters does with the
runes of the bytes.
-/
import TaskForge.Json.Trees
import TaskForge.Normalize
import TaskForge.Utf8

open Json

namespace TaskForge

/-- `CanonicalJSON`, on the bytes it is given. -/
def canonicalBytes (explain : Text → String) (raw : List UInt8) : Except String (List UInt8) :=
  (canonicalJSON explain (Utf8.runes raw)).map Utf8.encode

/-- The document `Decode` takes from the front of the bytes, and the text after it. -/
def decodeFirst (raw : List UInt8) : Option (Value × Text) := read maxNestingDepth (Utf8.runes raw)

section CanonicalForm

variable {explain : Text → String} {raw raw' out out' : List UInt8}

/-- Success: a document was read, `More` saw nothing, and the output is its print. -/
theorem canonicalBytes_eq_ok :
    canonicalBytes explain raw = .ok out ↔
      ∃ v rest, decodeFirst raw = some (v, rest) ∧ decoderMore rest = false ∧
        out = Utf8.encode (writeCanonical v) := by
  unfold canonicalBytes canonicalJSON decodeFirst
  cases read maxNestingDepth (Utf8.runes raw) with
  | none =>
    constructor
    · intro h
      cases h
    · rintro ⟨v, rest, h, -⟩
      cases h
  | some p =>
    simp only
    cases hmore : decoderMore p.2 with
    | true =>
      constructor
      · intro h
        cases h
      · rintro ⟨v, rest, hp, hrest, -⟩
        cases hp
        rw [hmore] at hrest
        cases hrest
    | false =>
      constructor
      · intro h
        cases h
        exact ⟨p.1, p.2, rfl, hmore, rfl⟩
      · rintro ⟨v, rest, hp, -, rfl⟩
        cases hp
        rfl

theorem decodedTree_canonical (v : Value) : (decodedTree v).Canonical bytewise :=
  canonical_rebuild bytewise_orders v

theorem decodedTree_tree (v : Value) : (decodedTree v).tree = v.tree :=
  tree_rebuild bytewise_orders v

/-- Two prints agree exactly when the documents mean the same. -/
theorem writeCanonical_eq_iff {v v' : Value} (hv : v.Within maxNestingDepth)
    (hv' : v'.Within maxNestingDepth) :
    writeCanonical v = writeCanonical v' ↔ v.tree = v'.tree := by
  constructor
  · intro h
    have hsame := encode_injective (goStyle_lawful false) (rebuild_id_within hv).1
      (rebuild_id_within hv').1 h
    rw [← decodedTree_tree v, hsame, decodedTree_tree v']
  · intro h
    have hsame : decodedTree v = decodedTree v' := by
      refine (decodedTree_canonical v).ext bytewise_orders (decodedTree_canonical v') ?_
      rw [decodedTree_tree, decodedTree_tree, h]
    rw [writeCanonical, hsame, writeCanonical]

/-- An output is read to its end, as the document it was printed from. -/
theorem decodeFirst_writeCanonical {v : Value} (hv : v.Within maxNestingDepth) :
    decodeFirst (Utf8.encode (writeCanonical v)) = some (decodedTree v, []) := by
  have hread := read_encode (goStyle_lawful false) (rebuild_id_within hv) (r := [])
    fun _ _ h => by cases h
  rw [List.append_nil] at hread
  rw [decodeFirst, Utf8.runes_encode]
  exact hread

/-- **Canonical JSON is a normal form.** Outputs are equal exactly when the documents
mean the same; an output is a document of the same meaning, and its own output. -/
theorem canonical_normal_form (h : canonicalBytes explain raw = .ok out)
    (h' : canonicalBytes explain raw' = .ok out') :
    ∃ v v' rest rest', decodeFirst raw = some (v, rest) ∧ decodeFirst raw' = some (v', rest') ∧
      (out = out' ↔ v.tree = v'.tree) ∧
      (∃ u, decodeFirst out = some (u, []) ∧ u.tree = v.tree) ∧
      canonicalBytes explain out = .ok out := by
  obtain ⟨v, rest, hread, -, rfl⟩ := canonicalBytes_eq_ok.mp h
  obtain ⟨v', rest', hread', -, rfl⟩ := canonicalBytes_eq_ok.mp h'
  have hv : v.Within maxNestingDepth := read_sound hread
  have hv' : v'.Within maxNestingDepth := read_sound hread'
  have hagain := decodeFirst_writeCanonical hv
  refine ⟨v, v', rest, rest', hread, hread', ?_, ⟨_, hagain, decodedTree_tree v⟩, ?_⟩
  · rw [← writeCanonical_eq_iff hv hv']
    constructor
    · intro heq
      rw [← Utf8.runes_encode (writeCanonical v), heq, Utf8.runes_encode]
    · intro heq
      rw [heq]
  · refine canonicalBytes_eq_ok.mpr ⟨_, _, hagain, rfl, ?_⟩
    have hfixed : writeCanonical (decodedTree v) = writeCanonical v :=
      (writeCanonical_eq_iff (rebuild_id_within hv) hv).mpr (decodedTree_tree v)
    rw [hfixed]

/-- Members in another order, a repeated name and blanks: one canonical text. -/
theorem canonical_normal_form_object :
    ∃ v v' rest rest', decodeFirst (Utf8.encode "\x7b\"b\":1,\"a\":[2, 3]\x7d".toList) = some (v, rest) ∧
      decodeFirst (Utf8.encode "\x7b\"a\":0,\"a\":[2,3],\"b\":1\x7d".toList) = some (v', rest') ∧
      v.tree = v'.tree := by
  have hout : ∀ {s t : String}, canonicalJSON (fun _ => "") s.toList = .ok t.toList →
      canonicalBytes (fun _ => "") (Utf8.encode s.toList) = .ok (Utf8.encode t.toList) := by
    intro s t h
    rw [canonicalBytes, Utf8.runes_encode, h]
    rfl
  have h : canonicalBytes (fun _ => "") (Utf8.encode "\x7b\"b\":1,\"a\":[2, 3]\x7d".toList) =
      .ok (Utf8.encode "\x7b\"a\":[2,3],\"b\":1\x7d".toList) := hout (by decide +kernel)
  have h' : canonicalBytes (fun _ => "")
      (Utf8.encode "\x7b\"a\":0,\"a\":[2,3],\"b\":1\x7d".toList) =
      .ok (Utf8.encode "\x7b\"a\":[2,3],\"b\":1\x7d".toList) := hout (by decide +kernel)
  obtain ⟨v, v', rest, rest', hread, hread', hiff, -⟩ := canonical_normal_form h h'
  exact ⟨v, v', rest, rest', hread, hread', hiff.mp rfl⟩

/-! ## The whole input -/

/-- The bytes are one document, with nothing but blanks around it. -/
def OneDocument (raw : List UInt8) : Prop :=
  ∃ v rest, decodeFirst raw = some (v, rest) ∧ skipBlanks rest = []

/-- A document stands in front, and the next thing after it is a closing bracket. -/
def ThenBracket (raw : List UInt8) : Prop :=
  ∃ v rest c r, decodeFirst raw = some (v, rest) ∧ skipBlanks rest = c :: r ∧
    (c = ']' ∨ c = '\x7d')

/-- **What `CanonicalJSON` reads.** It accepts exactly the inputs that are one document,
unless a closing bracket comes next after the document. -/
theorem canonical_reads_whole_iff (explain : Text → String) (raw : List UInt8) :
    ((∃ out, canonicalBytes explain raw = .ok out) ↔ OneDocument raw) ↔ ¬ ThenBracket raw := by
  have hok : (∃ out, canonicalBytes explain raw = .ok out) ↔
      ∃ v rest, decodeFirst raw = some (v, rest) ∧ decoderMore rest = false := by
    constructor
    · rintro ⟨out, h⟩
      obtain ⟨v, rest, hread, hmore, -⟩ := canonicalBytes_eq_ok.mp h
      exact ⟨v, rest, hread, hmore⟩
    · rintro ⟨v, rest, hread, hmore⟩
      exact ⟨_, canonicalBytes_eq_ok.mpr ⟨v, rest, hread, hmore, rfl⟩⟩
  unfold OneDocument ThenBracket
  rw [hok]
  cases hread : decodeFirst raw with
  | none => simp
  | some p =>
    cases hrest : skipBlanks p.2 with
    | nil =>
      -- Nothing is left, and all three agree.
      have hmore : decoderMore p.2 = false := by rw [decoderMore, hrest]
      refine iff_of_true (iff_of_true ⟨p.1, p.2, rfl, hmore⟩ ⟨p.1, p.2, rfl, hrest⟩) ?_
      rintro ⟨v, rest, c, r, h, hc, -⟩
      cases h
      rw [hrest] at hc
      cases hc
    | cons c r =>
      have hone : ¬ ∃ v rest, some p = some (v, rest) ∧ skipBlanks rest = [] := by
        rintro ⟨v, rest, h, hnil⟩
        cases h
        rw [hrest] at hnil
        cases hnil
      have hmore : (∃ v rest, some p = some (v, rest) ∧ decoderMore rest = false) ↔
          (c = ']' ∨ c = '\x7d') := by
        have hlook : decoderMore p.2 = (c != ']' && c != '\x7d') := by rw [decoderMore, hrest]
        constructor
        · rintro ⟨v, rest, h, hm⟩
          cases h
          rw [hlook, Bool.and_eq_false_iff, bne_eq_false_iff_eq, bne_eq_false_iff_eq] at hm
          exact hm
        · intro hc
          refine ⟨p.1, p.2, rfl, ?_⟩
          rw [hlook, Bool.and_eq_false_iff, bne_eq_false_iff_eq, bne_eq_false_iff_eq]
          exact hc
      have hbracket : (∃ v rest c' r', some p = some (v, rest) ∧ skipBlanks rest = c' :: r' ∧
          (c' = ']' ∨ c' = '\x7d')) ↔ (c = ']' ∨ c = '\x7d') := by
        constructor
        · rintro ⟨v, rest, c', r', h, hc', hb⟩
          cases h
          rw [hrest] at hc'
          cases hc'
          exact hb
        · intro hb
          exact ⟨p.1, p.2, c, r, rfl, hrest, hb⟩
      rw [hmore, hbracket, iff_false_right hone]

/-- An object and a stray bracket: accepted, and what follows the bracket is lost. -/
theorem trailing_bracket_accepted :
    canonicalBytes (fun _ => "") (Utf8.encode "\x7b\x7d] \x7b\"b\":1\x7d".toList) =
        .ok (Utf8.encode "\x7b\x7d".toList) ∧
      ¬ OneDocument (Utf8.encode "\x7b\x7d] \x7b\"b\":1\x7d".toList) := by
  have hread : decodeFirst (Utf8.encode "\x7b\x7d] \x7b\"b\":1\x7d".toList) =
      some (.object [], "] \x7b\"b\":1\x7d".toList) := by
    rw [decodeFirst, Utf8.runes_encode]
    rfl
  constructor
  · exact canonicalBytes_eq_ok.mpr ⟨_, _, hread, by decide +kernel, by decide +kernel⟩
  · rintro ⟨v, rest, h, hnil⟩
    rw [hread] at h
    cases h
    exact absurd hnil (by decide +kernel)

end CanonicalForm

end TaskForge
