/-
Identifiers and raw messages as text, as `internal/api` and `internal/worker` exchange
them.

A UUID is written in the dashed form and read in any of four (`parseUUID_uuidString`). A
document that is stored travels as a raw message: the text of the `jsonb` column, which
`encoding/json` writes with blanks dropped and markup escaped, or refuses to write where
it would be nested too deep.
-/
import TaskForge.Delivery
import TaskForge.ResultObjects
import TaskForge.Storage

open Relational Fallible Json

namespace TaskForge

/-! ## UUIDs -/

/-- The number a text of hexadecimal digits spells. -/
def hexNumber (t : Text) : Option ℕ :=
  t.foldlM (fun acc c => (hexValue c).map (16 * acc + ·)) 0

/-- `xxxxxxxx-xxxx-xxxx-xxxx-xxxxxxxxxxxx`, and what may follow it. -/
def parseDashed (t : Text) : Option UUID :=
  if t[8]? = some '-' ∧ t[13]? = some '-' ∧ t[18]? = some '-' ∧ t[23]? = some '-' then
    (hexNumber (t.take 8 ++ (t.drop 9).take 4 ++ (t.drop 14).take 4 ++ (t.drop 19).take 4 ++
      (t.drop 24).take 12)).map (BitVec.ofNat 128)
  else none

/-- A character as `strings.EqualFold` compares it with an ASCII letter: letter case is
ignored, and so are the two characters beyond ASCII that fold to one. -/
def foldChar (c : Char) : Char :=
  if 'A' ≤ c ∧ c ≤ 'Z' then Char.ofNat (c.toNat + 32)
  else if c = '\u017f' then 's'
  else if c = '\u212a' then 'k'
  else c

/-- `uuid.Parse`: four forms, told apart by their length. -/
def parseUUID (s : String) : Option UUID :=
  let t := s.toList
  if octets t = 36 then parseDashed t
  else if octets t = 45 then
    if (t.take 9).map foldChar = "urn:uuid:".toList then parseDashed (t.drop 9) else none
  else if octets t = 38 then if octets (t.take 1) = 1 then parseDashed (t.drop 1) else none
  else if octets t = 32 then (hexNumber t).map (BitVec.ofNat 128)
  else none

section UUIDs

/-- The last `n` hexadecimal digits of a number. -/
def lastDigits (n x : ℕ) : List ℕ := (List.range n).map fun i => x / 16 ^ (n - 1 - i) % 16

theorem lastDigits_succ (n x : ℕ) : lastDigits (n + 1) x = lastDigits n (x / 16) ++ [x % 16] := by
  unfold lastDigits
  rw [List.range_succ, List.map_append, List.map_singleton]
  congr 1
  · refine List.map_congr_left fun i hi => ?_
    have hi := List.mem_range.mp hi
    rw [Nat.div_div_eq_div_mul, ← Nat.pow_succ', show n + 1 - 1 - i = (n - 1 - i) + 1 by omega]
  · simp

theorem hexValue_digitChar {d : ℕ} (h : d < 16) : hexValue (Nat.digitChar d) = some d := by
  have key : ∀ d : Fin 16, hexValue (Nat.digitChar d) = some d.val := by decide
  exact key ⟨d, h⟩

theorem hexNumber_lastDigits (n x : ℕ) :
    hexNumber ((lastDigits n x).map Nat.digitChar) = some (x % 16 ^ n) := by
  induction n generalizing x with
  | zero => simp [lastDigits, hexNumber, Nat.mod_one]
  | succ n ih =>
    have hdigit := hexValue_digitChar (Nat.mod_lt x (by decide : 0 < 16))
    have hsplit : 16 * (x / 16 % 16 ^ n) + x % 16 = x % 16 ^ (n + 1) := by
      rw [Nat.pow_succ', Nat.mod_mul, Nat.add_comm]
    rw [lastDigits_succ, List.map_append, List.map_singleton]
    unfold hexNumber at ih ⊢
    rw [List.foldlM_append, ih]
    simp only [Option.bind_eq_bind, Option.bind_some, List.foldlM_cons, List.foldlM_nil, hdigit,
      Option.map_some, hsplit]
    rfl

theorem hexDigits_eq (u : UUID) : hexDigits u = (lastDigits 32 u.toNat).map Nat.digitChar := by
  rw [hexDigits, lastDigits, List.map_map]
  rfl

theorem hexDigits_length (u : UUID) : (hexDigits u).length = 32 := by simp [hexDigits]

theorem octets_hexDigits (u : UUID) {t : Text} (h : ∀ c ∈ t, c ∈ hexDigits u) :
    octets t = t.length := by
  have hone : ∀ c ∈ hexDigits u, c.utf8Size = 1 := by
    intro c hc
    rw [hexDigits_eq, List.mem_map] at hc
    obtain ⟨d, hd, rfl⟩ := hc
    obtain ⟨i, -, rfl⟩ := List.mem_map.mp hd
    have key : ∀ d : Fin 16, (Nat.digitChar d).utf8Size = 1 := by decide
    exact key ⟨_, Nat.mod_lt _ (by decide)⟩
  induction t with
  | nil => rfl
  | cons c t ih =>
    rw [octets_cons, hone c (h c List.mem_cons_self), ih fun c hc => h c (List.mem_cons_of_mem _ hc),
      List.length_cons, Nat.add_comm]

theorem parseDashed_groups {g₁ g₂ g₃ g₄ g₅ : Text} (h₁ : g₁.length = 8) (h₂ : g₂.length = 4)
    (h₃ : g₃.length = 4) (h₄ : g₄.length = 4) (h₅ : g₅.length = 12) :
    parseDashed (g₁ ++ '-' :: g₂ ++ '-' :: g₃ ++ '-' :: g₄ ++ '-' :: g₅) =
      (hexNumber (g₁ ++ g₂ ++ g₃ ++ g₄ ++ g₅)).map (BitVec.ofNat 128) := by
  unfold parseDashed
  rw [if_pos]
  · simp [List.drop_append, List.take_of_length_le, List.drop_eq_nil_of_le, h₁, h₂, h₃, h₄, h₅]
  · simp [h₁, h₂, h₃, h₄, h₅]

/-- What is written for a UUID is read as that UUID. -/
theorem parseUUID_uuidString (u : UUID) : parseUUID (uuidString u) = some u := by
  have hlength := hexDigits_length u
  -- The five groups, as slices of the digits.
  generalize hds : hexDigits u = ds at hlength
  have hgroup : ∀ a n, a + n ≤ 32 → ((ds.drop a).take n).length = n := by
    intro a n h
    rw [List.length_take, List.length_drop, hlength]
    omega
  have hoctets : ∀ a n, a + n ≤ 32 → octets ((ds.drop a).take n) = n := by
    intro a n h
    rw [octets_hexDigits u fun c hc => hds ▸ List.mem_of_mem_drop (List.mem_of_mem_take hc),
      hgroup a n h]
  have hlast : (ds.drop 20).take 12 = ds.drop 20 :=
    List.take_of_length_le (by rw [List.length_drop, hlength])
  have htext : (uuidString u).toList = (ds.drop 0).take 8 ++ '-' :: (ds.drop 8).take 4 ++
      '-' :: (ds.drop 12).take 4 ++ '-' :: (ds.drop 16).take 4 ++ '-' :: (ds.drop 20).take 12 := by
    rw [uuidString, String.toList_ofList, hds, hlast, List.drop_zero]
  have hjoin : (ds.drop 0).take 8 ++ (ds.drop 8).take 4 ++ (ds.drop 12).take 4 ++
      (ds.drop 16).take 4 ++ (ds.drop 20).take 12 = ds := by
    have hstep : ∀ a n, (ds.drop a).take n ++ ds.drop (a + n) = ds.drop a := by
      intro a n
      rw [← List.drop_drop]
      exact List.take_append_drop n (ds.drop a)
    rw [hlast, List.append_assoc, hstep 16 4, List.append_assoc, hstep 12 4, List.append_assoc,
      hstep 8 4, hstep 0 8, List.drop_zero]
  unfold parseUUID
  simp only [htext]
  rw [if_pos, parseDashed_groups (hgroup 0 8 (by decide)) (hgroup 8 4 (by decide))
    (hgroup 12 4 (by decide)) (hgroup 16 4 (by decide)) (hgroup 20 12 (by decide)), hjoin, ← hds,
    hexDigits_eq, hexNumber_lastDigits, Option.map_some]
  · rw [Nat.mod_eq_of_lt (show u.toNat < 16 ^ 32 by have := u.isLt; omega), BitVec.ofNat_toNat,
      BitVec.setWidth_eq]
  · simp only [octets_append, octets_cons, hoctets 0 8 (by decide), hoctets 8 4 (by decide),
      hoctets 12 4 (by decide), hoctets 16 4 (by decide), hoctets 20 12 (by decide)]
    decide

end UUIDs

/-! ## What the API writes -/

/-- `encoding/json` as `writeJSON` and `json.Marshal` use it. -/
def wire : Style := goStyle true

/-- The payload as PostgreSQL returns it. -/
def payloadText (J : Jsonb) (payload : String) : Text := ((documentOf payload).map J.text).getD []

/-- What `encoding/json` can write of a raw message inside `outer` objects: one document,
nested within what these leave of the limit. -/
def encodableAt (outer : ℕ) (raw : Text) : Bool :=
  (read (maxNestingDepth - outer) raw).any fun p => skipBlanks p.2 == []

/-- The body `writeJSON` sends: the status line is out already when the encoder fails. -/
def writeJSON (encoded : Option Text) : Text := (encoded.map (· ++ ['\n'])).getD []

end TaskForge
