/-
Text as the service and its database read it.

A text value is a `String`, a sequence of Unicode scalars. The patterns below
are the regular expressions that appear on both sides of the boundary, in the Go
validators and in the `CHECK` constraints of the migrations; both anchor at the
start and at the end of the text, so one definition serves both. Lengths differ:
Go's `len` and PostgreSQL's `octet_length` count bytes, PostgreSQL's `length`
counts characters.
-/
import Mathlib.Data.List.Basic
import Mathlib.Data.List.Dedup
import Mathlib.Data.List.Sort
import Mathlib.Data.List.TakeDrop
import Mathlib.Data.String.Basic

namespace TaskForge

/-! ## Characters -/

/-- `%q`: between quotation marks, with these and the backslash escaped. The words that
are quoted in error texts are printable. -/
def goQuoted (s : String) : String :=
  String.ofList ('\x22' :: s.toList.flatMap
    (fun c => if c = '\x22' ∨ c = '\x5c' then ['\x5c', c] else [c]) ++ ['\x22'])

/-- `[a-z0-9]` -/
def isLowerAlnum (c : Char) : Bool := ('a' ≤ c && c ≤ 'z') || ('0' ≤ c && c ≤ '9')

/-- `[a-z0-9._-]` -/
def isNameChar (c : Char) : Bool := isLowerAlnum c || c == '.' || c == '_' || c == '-'

/-- `[0-9a-f]` -/
def isHexDigit (c : Char) : Bool := ('0' ≤ c && c ≤ '9') || ('a' ≤ c && c ≤ 'f')

/-- Go's `unicode.IsControl`, and PostgreSQL's `[[:cntrl:]]`: U+0000 to U+001F
and U+007F to U+009F. -/
def isControl (c : Char) : Bool := c.toNat < 0x20 || (0x7f ≤ c.toNat && c.toNat ≤ 0x9f)

/-- Go's `unicode.IsSpace`. -/
def isSpace (c : Char) : Bool :=
  c == '\t' || c == '\n' || c == '\x0b' || c == '\x0c' || c == '\r' || c == ' ' ||
  c.toNat == 0x85 || c.toNat == 0xa0 || c.toNat == 0x1680 ||
  (0x2000 ≤ c.toNat && c.toNat ≤ 0x200a) || c.toNat == 0x2028 || c.toNat == 0x2029 ||
  c.toNat == 0x202f || c.toNat == 0x205f || c.toNat == 0x3000

/-! ## Patterns and lengths -/

/-- `^[a-z0-9][a-z0-9._-]{0,tail}$` -/
def matchesName (tail : ℕ) (s : String) : Bool :=
  match s.toList with
  | [] => false
  | c :: cs => isLowerAlnum c && cs.all isNameChar && decide (cs.length ≤ tail)

/-- `^[0-9a-f]{64}$` -/
def matchesHex64 (s : String) : Bool := s.toList.all isHexDigit && decide (s.length = 64)

/-- `^[0-9a-f]{2}-[0-9a-f]{32}-[0-9a-f]{16}-[0-9a-f]{2}$` -/
def matchesTraceparent (s : String) : Bool :=
  let field (lo n : ℕ) := ((s.toList.drop lo).take n).all isHexDigit
  decide (s.length = 55) && field 0 2 && field 3 32 && field 36 16 && field 53 2 &&
    [2, 35, 52].all fun i => s.toList[i]? == some '-'

/-- What a `TEXT` column can hold: PostgreSQL refuses the NUL character. -/
def storable (s : String) : Bool := !s.toList.contains '\x00'

/-- `length(s) BETWEEN lo AND hi`, on a storable text. -/
def lengthBetween (lo hi : ℕ) (s : String) : Bool :=
  storable s && decide (lo ≤ s.length) && decide (s.length ≤ hi)

/-- `octet_length(s)`, and Go's `len(s)`. -/
def octetLength (s : String) : ℕ := s.utf8ByteSize

/-- The characters whose encodings make up the first `n` bytes; none when byte `n`
falls inside a character. -/
def takeOctets : ℕ → List Char → Option (List Char)
  | _, [] => some []
  | 0, _ :: _ => some []
  | n + 1, c :: cs =>
    if c.utf8Size ≤ n + 1 then (takeOctets (n + 1 - c.utf8Size) cs).map (c :: ·) else none

/-- Go's `s[:n]`, when what it leaves is text. -/
def sliceOctets (n : ℕ) (s : String) : Option String :=
  (takeOctets n s.toList).map String.ofList

/-! ## Cutting -/

/-- Go's `strings.Cut(s, mark)`. -/
def cutAt (mark : Char) (s : String) : Option (String × String) :=
  match s.toList.span (· != mark) with
  | (_, []) => none
  | (before, _ :: after) => some (String.ofList before, String.ofList after)

variable {mark : Char} {before after s : String} {tail : ℕ}

/-- A text is cut at the first mark. -/
theorem cutAt_append (h : mark ∉ before.toList) :
    cutAt mark (before ++ String.ofList [mark] ++ after) = some (before, after) := by
  have hall : ∀ c ∈ before.toList, (c != mark) = true :=
    fun c hc => bne_iff_ne.mpr fun he => h (he ▸ hc)
  have hspan : (before.toList ++ mark :: after.toList).span (· != mark)
      = (before.toList, mark :: after.toList) := by
    rw [List.span_eq_takeWhile_dropWhile, List.takeWhile_append_of_pos hall,
      List.dropWhile_append_of_pos hall]
    simp
  have htext : (before ++ String.ofList [mark] ++ after).toList
      = before.toList ++ mark :: after.toList := by
    simp [String.toList_append]
  unfold cutAt
  rw [htext, hspan]
  simp

/-- What is cut is put together again with the mark between. -/
theorem cutAt_eq_some (h : cutAt mark s = some (before, after)) :
    s = before ++ String.ofList [mark] ++ after := by
  unfold cutAt at h
  rw [List.span_eq_takeWhile_dropWhile] at h
  have hsplit := List.takeWhile_append_dropWhile (p := (· != mark)) (l := s.toList)
  cases hdrop : s.toList.dropWhile (· != mark) with
  | nil =>
    rw [hdrop] at h
    cases h
  | cons c rest =>
    have hc : c = mark := by
      have hhead := List.head?_dropWhile_not (· != mark) s.toList
      rw [hdrop] at hhead
      simpa using hhead
    rw [hdrop] at h hsplit
    simp only [Option.some.injEq, Prod.mk.injEq] at h
    obtain ⟨rfl, rfl⟩ := h
    apply String.toList_inj.mp
    simp only [String.toList_append, String.toList_ofList, List.append_assoc, List.singleton_append]
    rw [hc] at hsplit
    exact hsplit.symm

/-! ## Trimming and sets -/

/-- Go's `strings.TrimSpace`. -/
def trimSpace (s : String) : String :=
  String.ofList (((s.toList.dropWhile isSpace).reverse.dropWhile isSpace).reverse)

/-- `workers.canonicalSet`: the trimmed non-empty values, each once, sorted. -/
def canonicalSet (values : List String) : List String :=
  (((values.map trimSpace).filter (· != "")).dedup).insertionSort (· ≤ ·)

theorem canonicalSet_length_le (values : List String) :
    (canonicalSet values).length ≤ values.length := by
  unfold canonicalSet
  rw [List.length_insertionSort]
  calc (((values.map trimSpace).filter (· != "")).dedup).length
      ≤ ((values.map trimSpace).filter (· != "")).length := (List.dedup_sublist _).length_le
    _ ≤ (values.map trimSpace).length := List.length_filter_le _ _
    _ = values.length := List.length_map _

theorem mem_canonicalSet {values : List String} {v : String} :
    v ∈ canonicalSet values ↔ v ≠ "" ∧ ∃ w ∈ values, trimSpace w = v := by
  unfold canonicalSet
  rw [List.mem_insertionSort, List.mem_dedup, List.mem_filter, List.mem_map, bne_iff_ne]
  exact and_comm

/-- The set is written in increasing order, so its members determine it. -/
theorem canonicalSet_sortedLT (values : List String) : (canonicalSet values).SortedLT := by
  have hnodup : (canonicalSet values).Nodup :=
    (List.perm_insertionSort _ _).nodup_iff.mpr (List.nodup_dedup _)
  exact List.SortedLE.sortedLT_of_nodup (List.pairwise_insertionSort _ _).sortedLE hnodup

/-- A text that matches a name pattern is not empty. -/
theorem ne_empty_of_matchesName (h : matchesName tail s = true) :
    s ≠ "" := by
  rintro rfl
  simp [matchesName] at h

/-- A text that matches a name pattern holds no NUL. -/
theorem storable_of_matchesName (h : matchesName tail s = true) :
    storable s = true := by
  unfold matchesName at h
  unfold storable
  cases hs : s.toList with
  | nil => rfl
  | cons c cs =>
    rw [hs] at h
    simp only [Bool.and_eq_true, List.all_eq_true, decide_eq_true_eq] at h
    obtain ⟨⟨hc, hcs⟩, -⟩ := h
    rw [Bool.not_eq_true', Bool.eq_false_iff, Ne, List.contains_iff_mem, List.mem_cons]
    rintro (rfl | hmem)
    · exact absurd hc (by decide)
    · exact absurd (hcs _ hmem) (by decide)

theorem storable_eq_true : storable s = true ↔ '\x00' ∉ s.toList := by
  rw [storable, Bool.not_eq_true', Bool.eq_false_iff, Ne, List.contains_iff_mem]

/-- Trimming adds no character. -/
theorem storable_trimSpace (h : storable s = true) : storable (trimSpace s) = true := by
  rw [storable_eq_true] at h ⊢
  unfold trimSpace
  rw [String.toList_ofList, List.mem_reverse]
  intro hmem
  have hdropped := (List.dropWhile_sublist isSpace).mem hmem
  rw [List.mem_reverse] at hdropped
  exact h ((List.dropWhile_sublist isSpace).mem hdropped)

/-- A text has no more characters than bytes. -/
theorem length_le_octetLength (s : String) : s.length ≤ octetLength s := by
  have key : ∀ cs : List Char, cs.length ≤ String.utf8Len cs := by
    intro cs
    induction cs with
    | nil => simp
    | cons c cs ih =>
      have hpos := c.utf8Size_pos
      rw [List.length_cons, String.utf8Len_cons]
      omega
  have hlen := key s.toList
  rw [← String.utf8ByteSize_ofList, String.ofList_toList, String.length_toList] at hlen
  exact hlen

/-- A text with a byte has a character. -/
theorem one_le_length (h : 1 ≤ octetLength s) : 1 ≤ s.length := by
  by_contra hlen
  have hempty : s = "" := String.length_eq_zero_iff.mp (by omega)
  rw [hempty] at h
  exact absurd h (by decide)

end TaskForge
