/-
JSON as text: the trees, a printer with a choice of escapes and separators, and a
reader.

The printer is one function over a `Style`, because the same tree is written three
ways in a service that stores JSON: as a compact canonical text, as the database
prints it back, and on the wire with the characters a browser could misread
escaped. The reader is a recursive descent over the characters, with the nesting
limit of the decoder as an argument; it keeps a number by its spelling and an
object by its members as written, repeated names included.

`TaskForge.Json.Reading` proves what the reader does with what the printer wrote.
-/
import Mathlib.Data.List.Basic
import Mathlib.Data.List.TakeWhile
import Mathlib.Data.String.Basic
import Mathlib.Tactic.Ring

namespace Json

/-! ## Trees -/

abbrev Text := List Char

/-- A JSON document. A number is its literal; an object is its members in the order
written. -/
inductive Value where
  | null
  | bool (b : Bool)
  | number (literal : Text)
  | string (text : Text)
  | array (items : List Value)
  | object (members : List (Text × Value))
deriving Repr

namespace Value

/-- Induction on a document: what holds of the items holds of the array, and what
holds of the member values holds of the object. -/
@[elab_as_elim]
theorem induct {P : Value → Prop} (null : P .null) (bool : ∀ b, P (.bool b))
    (number : ∀ literal, P (.number literal)) (string : ∀ text, P (.string text))
    (array : ∀ items, (∀ v ∈ items, P v) → P (.array items))
    (object : ∀ members, (∀ m ∈ members, P m.2) → P (.object members)) (v : Value) : P v := by
  refine @Value.rec P (fun items => ∀ v ∈ items, P v) (fun members => ∀ m ∈ members, P m.2)
    (fun m => P m.2) null bool number string array object ?_ ?_ ?_ ?_ ?_ v
  · exact fun _ h => absurd h List.not_mem_nil
  · exact fun _ _ hv hvs => List.forall_mem_cons.mpr ⟨hv, hvs⟩
  · exact fun _ h => absurd h List.not_mem_nil
  · exact fun _ _ hm hms => List.forall_mem_cons.mpr ⟨hm, hms⟩
  · exact fun _ _ h => h

mutual
/-- Every document inside a document, itself included. -/
def nodes : Value → List Value
  | .array items => .array items :: nodesOfItems items
  | .object members => .object members :: nodesOfMembers members
  | v => [v]
def nodesOfItems : List Value → List Value
  | [] => []
  | v :: vs => nodes v ++ nodesOfItems vs
def nodesOfMembers : List (Text × Value) → List Value
  | [] => []
  | (_, v) :: ms => nodes v ++ nodesOfMembers ms
end

mutual
/-- How deep arrays and objects are nested. -/
def depth : Value → ℕ
  | .array items => depthOfItems items + 1
  | .object members => depthOfMembers members + 1
  | _ => 0
def depthOfItems : List Value → ℕ
  | [] => 0
  | v :: vs => max (depth v) (depthOfItems vs)
def depthOfMembers : List (Text × Value) → ℕ
  | [] => 0
  | (_, v) :: ms => max (depth v) (depthOfMembers ms)
end

theorem nodesOfItems_eq (items : List Value) : nodesOfItems items = items.flatMap nodes := by
  induction items with
  | nil => rfl
  | cons v vs ih => rw [nodesOfItems, ih, List.flatMap_cons]

theorem nodesOfMembers_eq (members : List (Text × Value)) :
    nodesOfMembers members = members.flatMap fun m => nodes m.2 := by
  induction members with
  | nil => rfl
  | cons m ms ih => rw [nodesOfMembers, ih, List.flatMap_cons]

variable {items : List Value} {v : Value} {members : List (Text × Value)} {n : ℕ}

theorem mem_nodes_array :
    v ∈ nodes (.array items) ↔ v = .array items ∨ ∃ x ∈ items, v ∈ nodes x := by
  rw [nodes, nodesOfItems_eq, List.mem_cons, List.mem_flatMap]

theorem mem_nodes_object :
    v ∈ nodes (.object members) ↔ v = .object members ∨ ∃ m ∈ members, v ∈ nodes m.2 := by
  rw [nodes, nodesOfMembers_eq, List.mem_cons, List.mem_flatMap]

theorem depthOfItems_le :
    depthOfItems items ≤ n ↔ ∀ v ∈ items, depth v ≤ n := by
  induction items with
  | nil => simp [depthOfItems]
  | cons v vs ih => rw [depthOfItems, max_le_iff, ih, List.forall_mem_cons]

theorem depthOfMembers_le :
    depthOfMembers members ≤ n ↔ ∀ m ∈ members, depth m.2 ≤ n := by
  induction members with
  | nil => simp [depthOfMembers]
  | cons m ms ih => rw [depthOfMembers, max_le_iff, ih, List.forall_mem_cons]

end Value

/-! ## Printing -/

/-- How a printer writes the characters of a string, and what it puts between the
items of an array and after the name of a member. -/
structure Style where
  escape : Char → Text
  comma : Text
  colon : Text

/-- A string with its quotation marks. -/
def quote (escape : Char → Text) (s : Text) : Text := '\x22' :: (s.flatMap escape ++ ['\x22'])

/-- The texts with a separator between each two. -/
def joinWith (sep : Text) : List Text → Text
  | [] => []
  | t :: ts => t ++ ts.flatMap (sep ++ ·)

theorem mem_joinWith {sep : Text} {c : Char} {ts : List Text} (h : c ∈ joinWith sep ts) :
    c ∈ sep ∨ ∃ t ∈ ts, c ∈ t := by
  cases ts with
  | nil => exact absurd h List.not_mem_nil
  | cons t ts =>
    rcases List.mem_append.mp h with h | h
    · exact .inr ⟨t, List.mem_cons_self, h⟩
    · obtain ⟨u, hu, h⟩ := List.mem_flatMap.mp h
      rcases List.mem_append.mp h with h | h
      · exact .inl h
      · exact .inr ⟨u, List.mem_cons_of_mem _ hu, h⟩

/-- One member: its name and its printed value. -/
def memberText (style : Style) (name value : Text) : Text :=
  quote style.escape name ++ style.colon ++ value

/-- An object whose member values are printed already. -/
def objectText (style : Style) (members : List (Text × Text)) : Text :=
  '\x7b' :: (joinWith style.comma (members.map fun m => memberText style m.1 m.2) ++ ['\x7d'])

mutual
def encode (style : Style) : Value → Text
  | .null => ['n', 'u', 'l', 'l']
  | .bool true => ['t', 'r', 'u', 'e']
  | .bool false => ['f', 'a', 'l', 's', 'e']
  | .number literal => literal
  | .string text => quote style.escape text
  | .array items => '[' :: (joinWith style.comma (encodeItems style items) ++ [']'])
  | .object members => objectText style (encodeMembers style members)
def encodeItems (style : Style) : List Value → List Text
  | [] => []
  | v :: vs => encode style v :: encodeItems style vs
def encodeMembers (style : Style) : List (Text × Value) → List (Text × Text)
  | [] => []
  | (k, v) :: ms => (k, encode style v) :: encodeMembers style ms
end

theorem encodeItems_eq (style : Style) (items : List Value) :
    encodeItems style items = items.map (encode style) := by
  induction items with
  | nil => rfl
  | cons v vs ih => rw [encodeItems, ih, List.map_cons]

theorem encodeMembers_eq (style : Style) (members : List (Text × Value)) :
    encodeMembers style members = members.map fun m => (m.1, encode style m.2) := by
  induction members with
  | nil => rfl
  | cons m ms ih => rw [encodeMembers, ih, List.map_cons]

/-! ## Reading -/

/-- What JSON calls white space. -/
def isBlank (c : Char) : Bool := c == ' ' || c == '\t' || c == '\n' || c == '\r'

def skipBlanks (t : Text) : Text := t.dropWhile isBlank

def isDigit (c : Char) : Bool := '0' ≤ c && c ≤ '9'

/-- The digits at the front of a text, and what follows them. -/
def scanDigits : Text → Text × Text
  | [] => ([], [])
  | c :: r => if isDigit c then (c :: (scanDigits r).1, (scanDigits r).2) else ([], c :: r)

/-- `0`, or digits that do not begin with one. -/
def scanInteger : Text → Option (Text × Text)
  | [] => none
  | c :: r =>
    if c = '0' then some (['0'], r)
    else if isDigit c then some (c :: (scanDigits r).1, (scanDigits r).2)
    else none

/-- At least one digit. -/
def scanSome (t : Text) : Option (Text × Text) :=
  match (scanDigits t).1 with
  | [] => none
  | _ :: _ => some (scanDigits t)

/-- `.` and digits, or nothing. -/
def scanFraction : Text → Option (Text × Text)
  | [] => some ([], [])
  | c :: r => if c = '.' then (scanSome r).map fun p => ('.' :: p.1, p.2) else some ([], c :: r)

/-- The sign of an exponent, or nothing. -/
def scanSign : Text → Text × Text
  | [] => ([], [])
  | c :: r => if c = '+' ∨ c = '-' then ([c], r) else ([], c :: r)

/-- `e`, a sign or none, and digits, or nothing. -/
def scanExponent : Text → Option (Text × Text)
  | [] => some ([], [])
  | c :: r =>
    if c = 'e' ∨ c = 'E' then
      (scanSome (scanSign r).2).map fun p => (c :: ((scanSign r).1 ++ p.1), p.2)
    else some ([], c :: r)

/-- `-`, or nothing. -/
def scanMinus : Text → Text × Text
  | [] => ([], [])
  | c :: r => if c = '-' then (['-'], r) else ([], c :: r)

/-- A number: its literal, and what follows it. -/
def scanNumber (t : Text) : Option (Text × Text) := do
  let int ← scanInteger (scanMinus t).2
  let frac ← scanFraction int.2
  let exp ← scanExponent frac.2
  pure ((scanMinus t).1 ++ int.1 ++ frac.1 ++ exp.1, exp.2)

/-- One character of a string, or one UTF-16 code unit from a numeric escape. -/
inductive Piece where
  | char (c : Char)
  | unit (n : ℕ)
deriving DecidableEq, Repr

def hexValue (c : Char) : Option ℕ :=
  if '0' ≤ c ∧ c ≤ '9' then some (c.toNat - 48)
  else if 'a' ≤ c ∧ c ≤ 'f' then some (c.toNat - 87)
  else if 'A' ≤ c ∧ c ≤ 'F' then some (c.toNat - 55)
  else none

def hex4 (a b c d : Char) : Option ℕ := do
  pure (16 * (16 * (16 * (← hexValue a) + (← hexValue b)) + (← hexValue c)) + (← hexValue d))

/-- The character a one-letter escape stands for. -/
def shortEscape (c : Char) : Option Char :=
  if c = '\x22' ∨ c = '\x5c' ∨ c = '/' then some c
  else if c = 'b' then some '\x08'
  else if c = 'f' then some '\x0c'
  else if c = 'n' then some '\n'
  else if c = 'r' then some '\r'
  else if c = 't' then some '\t'
  else none

/-- The characters up to the closing quotation mark, and what follows it. -/
def scanPieces : Text → Option (List Piece × Text)
  | [] => none
  | c :: r =>
    if c = '\x22' then some ([], r)
    else if c = '\x5c' then
      match r with
      | [] => none
      | e :: r =>
        if e = 'u' then
          match r with
          | a :: b :: c :: d :: r =>
            (hex4 a b c d).bind fun n => (scanPieces r).map fun p => (.unit n :: p.1, p.2)
          | _ => none
        else (shortEscape e).bind fun c => (scanPieces r).map fun p => (.char c :: p.1, p.2)
    else if c.toNat < 0x20 then none
    else (scanPieces r).map fun p => (.char c :: p.1, p.2)

/-- U+FFFD, which stands for what is no character. -/
def replacement : Char := '\ufffd'

def isHighSurrogate (n : ℕ) : Bool := 0xd800 ≤ n && n < 0xdc00
def isLowSurrogate (n : ℕ) : Bool := 0xdc00 ≤ n && n < 0xe000

/-- A code unit on its own. -/
def ofUnit (n : ℕ) : Char :=
  if isHighSurrogate n || isLowSurrogate n then replacement else Char.ofNat n

/-- A pair of code units. -/
def ofPair (n m : ℕ) : Char := Char.ofNat (0x10000 + (n - 0xd800) * 0x400 + (m - 0xdc00))

/-- The text of the pieces: a high surrogate joins the low one after it, and one
without its partner is replaced. -/
def joinUnits : List Piece → Text
  | [] => []
  | .char c :: ps => c :: joinUnits ps
  | .unit n :: .unit m :: ps =>
    if isHighSurrogate n && isLowSurrogate m then ofPair n m :: joinUnits ps
    else ofUnit n :: joinUnits (.unit m :: ps)
  | .unit n :: ps => ofUnit n :: joinUnits ps

/-- A string after its opening quotation mark. -/
def scanString (t : Text) : Option (Text × Text) :=
  (scanPieces t).map fun p => (joinUnits p.1, p.2)

/-- The rest of a text that begins with a word. -/
def scanWord : Text → Text → Option Text
  | [], t => some t
  | _ :: _, [] => none
  | w :: ws, c :: r => if c = w then scanWord ws r else none

/-- The name of a member and its colon, and what follows them. -/
def scanName : Text → Option (Text × Text)
  | [] => none
  | c :: r =>
    if c = '\x22' then
      (scanString r).bind fun p =>
        match skipBlanks p.2 with
        | [] => none
        | c :: r => if c = ':' then some (p.1, skipBlanks r) else none
    else none

/-- What stands between an opening bracket and its closing one: nothing, or what
`more` reads. -/
def scanBody {α : Type} (close : Char) (more : Text → Option (List α × Text)) (t : Text) :
    Option (List α × Text) :=
  match skipBlanks t with
  | [] => none
  | c :: r => if c = close then some ([], r) else more (c :: r)

/-- What stands after an item: a comma and what `more` reads, or the closing
bracket. -/
def scanRest {α : Type} (close : Char) (more : Text → Option (List α × Text)) (x : α) (t : Text) :
    Option (List α × Text) :=
  match skipBlanks t with
  | [] => none
  | c :: r =>
    if c = ',' then (more (skipBlanks r)).map fun p => (x :: p.1, p.2)
    else if c = close then some ([x], r)
    else none

/-- What `inner` reads one level further down, where the nesting limit allows one. -/
def nested {α : Type} (depth : ℕ) (inner : ℕ → Option α) : Option α :=
  match depth with
  | 0 => none
  | depth + 1 => inner depth

mutual
/-- One document at the front of a text, and what follows it. `depth` is how many
arrays and objects may still be opened; `fuel` bounds the recursion, and the length
of the text is enough. -/
def value : ℕ → ℕ → Text → Option (Value × Text)
  | 0, _, _ => none
  | _ + 1, _, [] => none
  | fuel + 1, depth, c :: r =>
    if c = '\x22' then (scanString r).map fun p => (.string p.1, p.2)
    else if c = '[' then
      nested depth fun depth => (scanBody ']' (items fuel depth) r).map fun p => (.array p.1, p.2)
    else if c = '\x7b' then
      nested depth fun depth =>
        (scanBody '\x7d' (members fuel depth) r).map fun p => (.object p.1, p.2)
    else if c = 'n' then (scanWord ['u', 'l', 'l'] r).map fun r => (.null, r)
    else if c = 't' then (scanWord ['r', 'u', 'e'] r).map fun r => (.bool true, r)
    else if c = 'f' then (scanWord ['a', 'l', 's', 'e'] r).map fun r => (.bool false, r)
    else (scanNumber (c :: r)).map fun p => (.number p.1, p.2)
/-- At least one item, and the bracket that ends them. -/
def items : ℕ → ℕ → Text → Option (List Value × Text)
  | 0, _, _ => none
  | fuel + 1, depth, t =>
    (value fuel depth t).bind fun p => scanRest ']' (items fuel depth) p.1 p.2
/-- At least one member, and the brace that ends them. -/
def members : ℕ → ℕ → Text → Option (List (Text × Value) × Text)
  | 0, _, _ => none
  | fuel + 1, depth, t =>
    ((scanName t).bind fun name =>
      (value fuel depth name.2).map fun p => ((name.1, p.1), p.2)).bind fun p =>
        scanRest '\x7d' (members fuel depth) p.1 p.2
end

/-- The first document of a text, blanks before it skipped, and what follows it. -/
def read (depth : ℕ) (t : Text) : Option (Value × Text) := value (t.length + 1) depth (skipBlanks t)

/-! ## What a `jsonb` column takes

PostgreSQL reads a document from its text, and refuses some that other readers take: an
escape of U+0000, an escaped surrogate without its partner, and a number that its
`numeric` cannot hold. -/

/-- A text by its escapes: a numeric escape is one code unit. -/
def pieces : Text → List Piece
  | [] => []
  | c :: r =>
    if c = '\x5c' then
      match r with
      | [] => []
      | e :: r =>
        if e = 'u' then
          match r with
          | a :: b :: c :: d :: r => .unit ((hex4 a b c d).getD 0) :: pieces r
          | _ => []
        else .char e :: pieces r
    else .char c :: pieces r

/-- A code unit that stands for a character on its own, U+0000 apart. -/
def isPlainUnit (n : ℕ) : Bool := n != 0 && !isHighSurrogate n && !isLowSurrogate n

/-- No code unit is U+0000, and each surrogate is with its partner. -/
def unitsTaken : List Piece → Bool
  | [] => true
  | .char _ :: ps => unitsTaken ps
  | .unit n :: .unit m :: ps =>
    if isHighSurrogate n && isLowSurrogate m then unitsTaken ps
    else isPlainUnit n && unitsTaken (.unit m :: ps)
  | .unit n :: ps => isPlainUnit n && unitsTaken ps

/-- The number that digits spell. -/
def ofDigits (ds : Text) : ℕ := ds.foldl (fun n c => 10 * n + (c.toNat - 48)) 0

/-- A literal that `numeric` holds: at most 131072 digits before the decimal point and
16383 after it, and an exponent that is read at all. -/
def numericTakes (literal : Text) : Bool :=
  let int := scanDigits (scanMinus literal).2
  let frac := (scanFraction int.2).getD ([], [])
  let sign := scanSign (frac.2.drop 1)
  let exponent : Int := if sign.1 = ['-'] then -(ofDigits sign.2) else ofDigits sign.2
  let zeros := (int.1 ++ frac.1.drop 1).takeWhile (· == '0')
  decide (exponent.natAbs ≤ 1073741823) &&
    decide (((frac.1.drop 1).length : Int) - exponent ≤ 16383) &&
    (zeros == int.1 ++ frac.1.drop 1 || decide (int.1.length + exponent - zeros.length ≤ 131072))

/-- A text the column takes: one document, whatever its nesting, of escapes and numbers
that it takes. -/
def jsonbTakes (t : Text) : Bool :=
  unitsTaken (pieces t) && (read t.length t).any fun p => skipBlanks p.2 == [] &&
    p.1.nodes.all fun
      | .number literal => numericTakes literal
      | _ => true

/-! ## Bytes -/

/-- The length of a text in bytes. -/
def octets (t : Text) : ℕ := (t.map Char.utf8Size).sum

/-- The longest beginning of a text that takes up at most `n` bytes. The bytes of a
character that is cut in two complete no document, so a reader that is given only so
many bytes reads this. -/
def withinOctets : ℕ → Text → Text
  | _, [] => []
  | n, c :: r => if c.utf8Size ≤ n then c :: withinOctets (n - c.utf8Size) r else []

@[simp] theorem octets_nil : octets [] = 0 := rfl

@[simp] theorem octets_cons (c : Char) (t : Text) : octets (c :: t) = c.utf8Size + octets t := by
  simp [octets]

@[simp] theorem octets_append (t u : Text) : octets (t ++ u) = octets t + octets u := by
  simp [octets]

theorem octets_flatMap_replicate (f : Char → Text) (n : ℕ) (c : Char) :
    octets ((List.replicate n c).flatMap f) = n * octets (f c) := by
  induction n with
  | zero => simp
  | succ n ih =>
    rw [List.replicate_succ, List.flatMap_cons, octets_append, ih]
    ring

theorem octets_joinWith (sep : Text) (ts : List Text) :
    octets (joinWith sep ts) = (ts.map octets).sum + (ts.length - 1) * octets sep := by
  have htail : ∀ us : List Text,
      octets (us.flatMap (sep ++ ·)) = (us.map octets).sum + us.length * octets sep := by
    intro us
    induction us with
    | nil => simp
    | cons u us ih =>
      simp only [List.flatMap_cons, octets_append, ih, List.map_cons, List.sum_cons,
        List.length_cons]
      ring
  cases ts with
  | nil => simp [joinWith]
  | cons t us =>
    simp only [joinWith, octets_append, htail, List.map_cons, List.sum_cons, List.length_cons,
      Nat.add_sub_cancel]
    ring

/-- The bytes of an object beside its members' values: braces, separators and names. -/
def frame (style : Style) (names : List Text) : ℕ :=
  2 + (names.map fun k => octets (quote style.escape k) + octets style.colon).sum +
    (names.length - 1) * octets style.comma

/-- The size of an object: its frame and its values. -/
theorem octets_objectText (style : Style) (ms : List (Text × Text)) :
    octets (objectText style ms) =
      frame style (ms.map Prod.fst) + (ms.map fun m => octets m.2).sum := by
  have hmark : ('\x7b').utf8Size = 1 ∧ ('\x7d').utf8Size = 1 := by decide
  have hmembers : (ms.map fun m => octets (memberText style m.1 m.2)).sum =
      (ms.map fun m => octets (quote style.escape m.1) + octets style.colon).sum +
        (ms.map fun m => octets m.2).sum := by
    induction ms with
    | nil => rfl
    | cons m ms ih =>
      rw [List.map_cons, List.sum_cons, ih, memberText]
      simp only [List.map_cons, List.sum_cons, octets_append]
      ring
  simp only [objectText, frame, octets_cons, octets_append, octets_nil, octets_joinWith,
    List.map_map, Function.comp_def, List.length_map, hmark, hmembers]
  ring

theorem octets_withinOctets_le (n : ℕ) (t : Text) : octets (withinOctets n t) ≤ n := by
  induction t generalizing n with
  | nil => exact Nat.zero_le n
  | cons c t ih =>
    rw [withinOctets]
    split_ifs with hc
    · have := ih (n - c.utf8Size)
      rw [octets_cons]
      omega
    · exact Nat.zero_le n

theorem withinOctets_begins (n : ℕ) (t : Text) : withinOctets n t <+: t := by
  induction t generalizing n with
  | nil => exact List.nil_prefix
  | cons c t ih =>
    rw [withinOctets]
    split_ifs
    · exact List.cons_prefix_cons.mpr ⟨rfl, ih _⟩
    · exact List.nil_prefix

theorem withinOctets_longest {n : ℕ} {t u : Text} (hu : u <+: t) (hlen : octets u ≤ n) :
    u <+: withinOctets n t := by
  induction t generalizing u n with
  | nil => exact hu
  | cons c t ih =>
    cases u with
    | nil => exact List.nil_prefix
    | cons d u =>
      obtain ⟨rfl, hrest⟩ := List.cons_prefix_cons.mp hu
      rw [octets_cons] at hlen
      rw [withinOctets, if_pos (by omega)]
      exact List.cons_prefix_cons.mpr ⟨rfl, ih hrest (by omega)⟩

theorem withinOctets_eq_self {n : ℕ} {t : Text} (h : octets t ≤ n) : withinOctets n t = t :=
  (withinOctets_begins n t).eq_of_length_le (withinOctets_longest List.prefix_rfl h).length_le

end Json
