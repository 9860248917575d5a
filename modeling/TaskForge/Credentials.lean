/-
Keys: `internal/auth`, and `internal/workerauth` alike.

A key is `tfk_`, a lookup segment and a secret segment, both random bytes in base64.
The store keeps the lookup segment, which is unique, and the SHA-256 of the secret
segment, never the secret. A presented text is taken apart, its lookup segment finds
the row, and the digest of its secret is compared. The two stores have one shape and
a table each; what is said here of one table holds of both.

`KeysRecorded` ties a table to the creations and revocations that committed. Under it a
text is accepted exactly when it is, to the last character, a key that was created
and not revoked (`KeysRecorded.authenticate`): the parser is tolerant of what base64 decodes,
but what is compared is text. SHA-256 is a function of which nothing is known; that
it tells the secrets at hand apart is a hypothesis.
-/
import TaskForge.Base64
import TaskForge.Requests
import TaskForge.Fallible

open Relational Fallible

namespace TaskForge

/-! ## Key material (`key.go`) -/

/-- `auth.KeyPrefix` -/
def keyMarker : String := "tfk_"
/-- `auth.LookupBytes` -/
def lookupBytes : ℕ := 16
/-- `auth.SecretBytes` -/
def secretBytes : ℕ := 32
/-- `auth.LookupLen` -/
def lookupLen : ℕ := (lookupBytes * 8 + 5) / 6
/-- `auth.SecretLen` -/
def secretLen : ℕ := (secretBytes * 8 + 5) / 6
/-- `auth.KeyLen` -/
def keyLen : ℕ := octetLength keyMarker + lookupLen + 1 + secretLen
/-- `auth.MaxCredentialLen` -/
def maxCredentialLen : ℕ := 4 * keyLen

/-- `auth.Material` -/
structure Material where
  lookup : String
  secret : String
  secretHash : String
deriving DecidableEq, Repr

/-- `Material.Raw` -/
def Material.raw (m : Material) : String := keyMarker ++ (m.lookup ++ "." ++ m.secret)

/-- `encoding.EncodeToString` -/
def encodeSegment (bytes : List UInt8) : String := String.ofList (Base64.encode bytes)

/-- `GenerateMaterial`, reading `random`; `none` if it ends early. `sha256` is the
digest in lowercase hexadecimal, `HashSecret`. -/
def generateMaterial (sha256 : String → String) (random : List UInt8) : Option Material :=
  if random.length < lookupBytes + secretBytes then none
  else
    let secret := encodeSegment ((random.drop lookupBytes).take secretBytes)
    some ⟨encodeSegment (random.take lookupBytes), secret, sha256 secret⟩

/-- `auth.Presented` -/
structure Presented where
  lookup : String
  secret : String
deriving DecidableEq, Repr

/-- `strings.CutPrefix` -/
def cutMarker (marker s : String) : Option String :=
  if marker.toList.isPrefixOf s.toList then some (String.ofList (s.toList.drop marker.length))
  else none

/-- `decodeSegment` -/
def segmentDecodes (segment : String) : Bool := (Base64.decode segment.toList).isSome

/-- `ParseKey`. Its errors differ in wording only, and `Authenticate` drops it. -/
def parseKey (raw : String) : Option Presented :=
  if maxCredentialLen < octetLength raw then none
  else if octetLength raw ≠ keyLen then none
  else do
    let rest ← cutMarker keyMarker raw
    let (lookup, secret) ← cutAt '.' rest
    if octetLength lookup ≠ lookupLen ∨ octetLength secret ≠ secretLen then none
    else if !segmentDecodes lookup then none
    else if !segmentDecodes secret then none
    else some ⟨lookup, secret⟩

/-- `VerifySecret` -/
def verifySecret (sha256 : String → String) (storedHash secret : String) : Bool :=
  if octetLength storedHash ≠ octetLength (sha256 secret) then false
  else storedHash == sha256 secret

section Texts

/-- Every character of a segment is one byte, and none is the separator. -/
theorem encode_plain (bytes : List UInt8) :
    ∀ c ∈ Base64.encode bytes, c.utf8Size = 1 ∧ c ≠ '.' := by
  intro c hc
  obtain ⟨v, hv, rfl⟩ := List.mem_map.mp hc
  have hall : ∀ v : Fin 64, (Base64.digit v).utf8Size = 1 ∧ Base64.digit v ≠ '.' := by decide
  exact hall ⟨v, Base64.groups_lt bytes v hv⟩

theorem segmentDecodes_encode (bytes : List UInt8) :
    segmentDecodes (encodeSegment bytes) = true := by
  rw [segmentDecodes, encodeSegment, String.toList_ofList, Base64.decode_encode]
  rfl

/-- A text of one-byte characters is as long as it has characters. -/
theorem octetLength_ofList {t : List Char} (h : ∀ c ∈ t, c.utf8Size = 1) :
    octetLength (String.ofList t) = t.length := by
  rw [octetLength, String.utf8ByteSize_ofList]
  induction t with
  | nil => simp
  | cons c t ih =>
    rw [String.utf8Len_cons, ih fun d hd => h d (List.mem_cons_of_mem c hd),
      h c List.mem_cons_self, List.length_cons]

theorem octetLength_encodeSegment (bytes : List UInt8) :
    octetLength (encodeSegment bytes) = (bytes.length * 8 + 5) / 6 := by
  rw [encodeSegment, octetLength_ofList fun c hc => (encode_plain bytes c hc).1,
    Base64.encode_length]

theorem octetLength_append (s t : String) :
    octetLength (s ++ t) = octetLength s + octetLength t := String.utf8ByteSize_append

theorem cutMarker_append (marker rest : String) : cutMarker marker (marker ++ rest) = some rest := by
  have hpre : marker.toList.isPrefixOf (marker ++ rest).toList = true := by
    rw [String.toList_append, List.isPrefixOf_iff_prefix]
    exact List.prefix_append _ _
  rw [cutMarker, if_pos hpre, String.toList_append, ← String.length_toList, List.drop_left,
    String.ofList_toList]

theorem cutMarker_eq_some {marker s rest : String} (h : cutMarker marker s = some rest) :
    s = marker ++ rest := by
  unfold cutMarker at h
  split_ifs at h with hpre
  cases h
  obtain ⟨t, ht⟩ := List.isPrefixOf_iff_prefix.mp hpre
  apply String.toList_inj.mp
  rw [String.toList_append, String.toList_ofList, ← ht, ← String.length_toList, List.drop_left]

/-- What every key that is generated looks like. -/
structure Material.Generated (sha256 : String → String) (m : Material) : Prop where
  lookup_length : octetLength m.lookup = lookupLen
  secret_length : octetLength m.secret = secretLen
  lookup_decodes : segmentDecodes m.lookup = true
  secret_decodes : segmentDecodes m.secret = true
  lookup_plain : '.' ∉ m.lookup.toList
  hash : m.secretHash = sha256 m.secret

variable {sha256 : String → String} {random : List UInt8} {m : Material} {raw : String}
  {p : Presented}

theorem generateMaterial_eq_some (h : generateMaterial sha256 random = some m) :
    m.Generated sha256 := by
  unfold generateMaterial at h
  split_ifs at h with hlong
  cases h
  have hlookup : (random.take lookupBytes).length = lookupBytes := by
    rw [List.length_take]
    omega
  have hsecret : ((random.drop lookupBytes).take secretBytes).length = secretBytes := by
    rw [List.length_take, List.length_drop]
    omega
  refine ⟨?_, ?_, segmentDecodes_encode _, segmentDecodes_encode _, ?_, rfl⟩
  · rw [octetLength_encodeSegment, hlookup, lookupLen]
  · rw [octetLength_encodeSegment, hsecret, secretLen]
  · rw [encodeSegment, String.toList_ofList]
    exact fun hdot => (encode_plain _ _ hdot).2 rfl

/-- A key that is generated is taken apart into its segments. -/
theorem Material.Generated.parse (h : m.Generated sha256) :
    parseKey m.raw = some ⟨m.lookup, m.secret⟩ := by
  have hlength : octetLength m.raw = keyLen := by
    rw [Material.raw, octetLength_append, octetLength_append, octetLength_append, h.lookup_length,
      h.secret_length, keyLen]
    have hdot : octetLength "." = 1 := by decide
    omega
  have hshort : ¬ maxCredentialLen < octetLength m.raw := by
    rw [hlength, maxCredentialLen]
    omega
  have hcut : cutAt '.' (m.lookup ++ "." ++ m.secret) = some (m.lookup, m.secret) :=
    cutAt_append h.lookup_plain
  rw [parseKey, if_neg hshort, if_neg (not_not.mpr hlength), Material.raw, cutMarker_append]
  simp only [Option.bind_eq_bind, Option.bind_some, hcut, h.lookup_length, h.secret_length,
    h.lookup_decodes, h.secret_decodes, ne_eq, not_true_eq_false, or_self, if_false, Bool.not_true,
    Bool.false_eq_true]

/-- Whatever is taken apart was these segments, to the last character. -/
structure Presented.Parsed (p : Presented) (raw : String) : Prop where
  raw_eq : raw = keyMarker ++ (p.lookup ++ "." ++ p.secret)
  lookup_length : octetLength p.lookup = lookupLen
  secret_length : octetLength p.secret = secretLen
  lookup_decodes : segmentDecodes p.lookup = true
  secret_decodes : segmentDecodes p.secret = true

theorem parseKey_eq_some (h : parseKey raw = some p) :
    p.Parsed raw := by
  unfold parseKey at h
  split_ifs at h with hlong hlength
  simp only [Option.bind_eq_bind, Option.bind_eq_some_iff] at h
  obtain ⟨rest, hrest, ⟨lookup, secret⟩, hcut, h⟩ := h
  split_ifs at h with hlengths hlookup hsecret
  cases h
  obtain ⟨hlookupLen, hsecretLen⟩ := not_or.mp hlengths
  exact ⟨by rw [cutMarker_eq_some hrest, cutAt_eq_some hcut], not_not.mp hlookupLen,
    not_not.mp hsecretLen, by simpa using hlookup, by simpa using hsecret⟩

theorem verifySecret_eq_true {storedHash secret : String} :
    verifySecret sha256 storedHash secret = true ↔ storedHash = sha256 secret := by
  unfold verifySecret
  split_ifs with hlength
  · exact ⟨nofun, fun h => absurd (congrArg octetLength h) hlength⟩
  · exact beq_iff_eq

/-! ### The syntax of a key

`ParseKey` asks the decoder of base64 whether a segment is one, and the decoder is
tolerant. So it takes texts that no encoder has written, with line ends in a segment or
with bits set that no byte has. -/

/-- An encoder may have written both segments. -/
def Presented.canonical (p : Presented) : Bool :=
  Base64.canonical p.lookup.toList && Base64.canonical p.secret.toList

end Texts

/-! ## The key store (`store.go`) -/

/-- A row of `api_keys`, or of `worker_keys`. The lookup segment is the column
`prefix`. -/
structure KeyRow where
  id : UUID
  scope : String
  name : String
  lookup : String
  secretHash : String
  createdAt : Int
  revokedAt : Option Int
deriving DecidableEq, Repr

/-- `api_keys`, `worker_keys` -/
def keys : Constraints KeyRow where
  check k := scopeBounded k.scope && lengthBetween 1 128 k.name && lengthBetween 8 32 k.lookup &&
    matchesHex64 k.secretHash && k.revokedAt.all fun revoked => decide (k.createdAt ≤ revoked)
  clash a b := decide (a.id = b.id) || decide (a.lookup = b.lookup)
  clash_symm a b := by simp only [eq_comm]
  clash_refl a := by simp

/-- A store of keys. -/
abbrev KeyTable := Table keys

/-- `auth.Key`: what of a row may be shown. -/
structure Key where
  id : UUID
  scope : String
  name : String
  lookup : String
  createdAt : Int
  revokedAt : Option Int
deriving DecidableEq, Repr

/-- `scanKey` -/
def scanKey (k : KeyRow) : Key := ⟨k.id, k.scope, k.name, k.lookup, k.createdAt, k.revokedAt⟩

/-- `auth.Created` -/
structure CreatedKey where
  key : Key
  raw : String
deriving DecidableEq, Repr

/-- `auth.RevokeResult` -/
structure RevokeResult where
  key : Key
  alreadyRevoked : Bool
deriving DecidableEq, Repr

/-- `auth.Principal` -/
structure Principal where
  keyID : UUID
  scope : String
deriving DecidableEq, Repr

/-- Why a key is not created or revoked. -/
inductive KeyError where
  | invalid (fields : List FieldError)
  | entropy
  | database
  | keyNotFound
deriving DecidableEq, Repr

/-- `isPrintableWithin` -/
def isPrintableWithin (value : String) (maxLen : ℕ) : Bool :=
  if octetLength value < 1 ∨ maxLen < octetLength value then false
  else value.toList.all fun r => !(decide (r.toNat < 0x20) || r.toNat == 0x7f)

/-- `validateKeyRequest` -/
def validateKeyRequest (scope name : String) : List FieldError :=
  mustHold (isPrintableWithin scope 128) "scope"
      "must contain between 1 and 128 printable characters" ++
    mustHold (isPrintableWithin name 128) "name"
      "must contain between 1 and 128 printable characters"

/-- What one attempt of `Create` takes from outside. -/
structure Draw where
  random : List UInt8
  id : UUID
  now : Int

/-- One turn of the loop of `Create`, an `INSERT` that commits by itself; `none` is
a collision of lookup segments. A clash of ids is another constraint's, and is not
retried. -/
def createAttempt (sha256 : String → String) (scope name : String) (draw : Draw) (t : KeyTable) :
    Except KeyError (Option (CreatedKey × KeyTable)) := do
  let material ← orFail (generateMaterial sha256 draw.random) .entropy
  let row : KeyRow :=
    ⟨draw.id, scope, name, material.lookup, material.secretHash, draw.now, none⟩
  match t.insert row with
  | .ok t' => pure (some (⟨scanKey row, material.raw⟩, t'))
  | .error .unique => if t.rows.any (·.id == draw.id) then .error .database else pure none
  | .error .check => .error .database

/-- `Create` up to and with one of its two attempts: what is trimmed and validated is the
same at both. -/
def createTurn (sha256 : String → String) (scope name : String) (draw : Draw) (t : KeyTable) :
    Except KeyError (Option (CreatedKey × KeyTable)) :=
  let fields := validateKeyRequest (trimSpace scope) (trimSpace name)
  if fields ≠ [] then .error (.invalid fields)
  else createAttempt sha256 (trimSpace scope) (trimSpace name) draw t

/-- `Revoke`: the conditional `UPDATE`, and the read that tells its two cases of no
row apart. -/
def revokeKey (now : Int) (id : UUID) (t : KeyTable) : Except KeyError (RevokeResult × KeyTable) :=
  match t.rows.find? fun k => k.id == id && k.revokedAt.isNone with
  | some k =>
    match t.update (fun k => k.id == id && k.revokedAt.isNone)
        fun k => { k with revokedAt := some now } with
    | .ok t' => .ok (⟨scanKey { k with revokedAt := some now }, false⟩, t')
    | .error _ => .error .database
  | none =>
    match t.rows.find? fun k => k.id == id with
    | some k => .ok (⟨scanKey k, true⟩, t)
    | none => .error .keyNotFound

/-- `Authenticate`; `none` is `ErrUnauthorized`, the one answer of every failure. -/
def authenticate (sha256 : String → String) (t : KeyTable) (raw : String) : Option Principal := do
  let presented ← parseKey raw
  let k ← t.rows.find? fun k => k.lookup == presented.lookup
  if !verifySecret sha256 k.secretHash presented.secret then none
  else if k.revokedAt.isSome then none
  else some ⟨k.id, k.scope⟩

/-- `IsRevoked`: a key that is not there counts as revoked. -/
def isRevoked (t : KeyTable) (id : UUID) : Bool :=
  match t.rows.find? fun k => k.id == id with
  | some k => k.revokedAt.isSome
  | none => true

/-! ## What the store keeps of its keys -/

/-- A creation or a revocation that committed. -/
inductive KeyEvent where
  | created (id : UUID) (scope raw : String)
  | revoked (id : UUID)
deriving DecidableEq, Repr

/-- The row `k` was written for the key `raw`. -/
def KeyRow.Holds (sha256 : String → String) (k : KeyRow) (raw : String) : Prop :=
  ∃ m : Material, m.Generated sha256 ∧ k.lookup = m.lookup ∧ k.secretHash = m.secretHash ∧
    m.raw = raw

/-- The table is what the creations and revocations of `log` left. -/
structure KeysRecorded (sha256 : String → String) (log : List KeyEvent) (t : KeyTable) : Prop where
  rows : ∀ k ∈ t.rows, ∃ raw, k.Holds sha256 raw ∧ .created k.id k.scope raw ∈ log
  created : ∀ {id scope raw}, .created id scope raw ∈ log →
    ∃ k ∈ t.rows, k.id = id ∧ k.scope = scope ∧ k.Holds sha256 raw
  revoked : ∀ {id}, .revoked id ∈ log ↔ ∃ k ∈ t.rows, k.id = id ∧ k.revokedAt.isSome = true

section Store

variable {sha256 : String → String} {t t' : KeyTable} {log : List KeyEvent} {k k' : KeyRow}
  {id : UUID}

theorem key_eq_of_id (hk : k ∈ t.rows) (hk' : k' ∈ t.rows) (h : k.id = k'.id) : k = k' :=
  t.eq_of_clash hk hk' (by simp [keys, h])

theorem key_eq_of_lookup (hk : k ∈ t.rows) (hk' : k' ∈ t.rows) (h : k.lookup = k'.lookup) :
    k = k' := t.eq_of_clash hk hk' (by simp [keys, h])

theorem KeysRecorded.empty : KeysRecorded sha256 [] .empty :=
  ⟨fun _ hk => absurd hk List.not_mem_nil, fun h => absurd h List.not_mem_nil,
    ⟨fun h => absurd h List.not_mem_nil, fun ⟨_, hk, _⟩ => absurd hk List.not_mem_nil⟩⟩

/-- A turn of `Create` that commits writes the row of the key it answers. -/
theorem createTurn_eq_ok {scope name : String} {draw : Draw} {c : CreatedKey}
    (h : createTurn sha256 scope name draw t = .ok (some (c, t'))) :
    ∃ k : KeyRow, t'.rows = t.rows ++ [k] ∧ c.key = scanKey k ∧ k.scope = trimSpace scope ∧
      k.Holds sha256 c.raw ∧ k.revokedAt = none := by
  simp only [createTurn, createAttempt, ite_eq_ok, bind_eq_ok, orFail_eq_ok, reduceCtorEq,
    and_false, false_or] at h
  obtain ⟨-, m, hm, h⟩ := h
  split at h
  · next hins =>
    cases h
    exact ⟨_, Table.insert_rows hins, rfl, rfl, ⟨m, generateMaterial_eq_some hm, rfl, rfl, rfl⟩, rfl⟩
  · split_ifs at h
    cases h
  · cases h

/-- A revocation stamps the one row of its id, or leaves the stamp it has. -/
theorem revokeKey_eq_ok {now : Int} {r : RevokeResult} (h : revokeKey now id t = .ok (r, t')) :
    ∃ k ∈ t.rows, k.id = id ∧ ∃ stamp, stamp = k.revokedAt.getD now ∧
      t'.rows = replaceRow k { k with revokedAt := some stamp } t.rows := by
  unfold revokeKey at h
  split at h
  · next k hf =>
    split at h
    · next hu =>
      cases h
      obtain ⟨hk, hsel⟩ := found_of_find? hf
      obtain ⟨hid, hlive⟩ := Bool.and_eq_true_iff.mp hsel
      refine ⟨k, hk, beq_iff_eq.mp hid, now, by rw [Option.isNone_iff_eq_none.mp hlive]; rfl, ?_⟩
      refine Table.update_rows_single hu hsel fun x hx hxp => ?_
      have hxid := (Bool.and_eq_true_iff.mp hxp).1
      exact key_eq_of_id hx hk ((beq_iff_eq.mp hxid).trans (beq_iff_eq.mp hid).symm)
    · cases h
  · next hnone =>
    split at h
    · next k hf =>
      cases h
      obtain ⟨hk, hsel⟩ := found_of_find? hf
      refine ⟨k, hk, beq_iff_eq.mp hsel, ?_⟩
      cases hstamp : k.revokedAt with
      | none => exact absurd (by rw [hsel, hstamp]; rfl) (List.find?_eq_none.mp hnone k hk)
      | some stamp =>
        -- The row is written back as it is.
        refine ⟨stamp, rfl, ?_⟩
        rw [← hstamp, replaceRow_self]
    · cases h

/-- The row of a new key is recorded by its creation. -/
theorem KeysRecorded.create {raw : String} (h : KeysRecorded sha256 log t) (hrows : t'.rows = t.rows ++ [k])
    (hholds : k.Holds sha256 raw) (hlive : k.revokedAt = none) :
    KeysRecorded sha256 (log ++ [.created k.id k.scope raw]) t' := by
  have hmem : ∀ x, x ∈ t'.rows ↔ x ∈ t.rows ∨ x = k := by
    intro x
    rw [hrows, List.mem_append, List.mem_singleton]
  refine ⟨fun x hx => ?_, fun {id scope raw'} hc => ?_, fun {id} => ?_⟩
  · rcases (hmem x).mp hx with hx | rfl
    · obtain ⟨raw', hx', hlog⟩ := h.rows x hx
      exact ⟨raw', hx', List.mem_append_left _ hlog⟩
    · exact ⟨raw, hholds, List.mem_append_right _ List.mem_cons_self⟩
  · rcases List.mem_append.mp hc with hc | hc
    · obtain ⟨x, hx, hfacts⟩ := h.created hc
      exact ⟨x, (hmem x).mpr (.inl hx), hfacts⟩
    · cases List.mem_singleton.mp hc
      exact ⟨k, (hmem k).mpr (.inr rfl), rfl, rfl, hholds⟩
  · rw [List.mem_append, List.mem_singleton, h.revoked]
    constructor
    · rintro (⟨x, hx, hfacts⟩ | hbad)
      · exact ⟨x, (hmem x).mpr (.inl hx), hfacts⟩
      · cases hbad
    · rintro ⟨x, hx, hid, hstamped⟩
      rcases (hmem x).mp hx with hx | rfl
      · exact .inl ⟨x, hx, hid, hstamped⟩
      · rw [hlive] at hstamped
        cases hstamped

/-- So is a stamp by its revocation. -/
theorem KeysRecorded.revoke {now : Int} {r : RevokeResult} (h : KeysRecorded sha256 log t)
    (hrun : revokeKey now id t = .ok (r, t')) : KeysRecorded sha256 (log ++ [.revoked id]) t' := by
  obtain ⟨k, hk, rfl, stamp, -, hrows⟩ := revokeKey_eq_ok hrun
  have hmem : ∀ x, x ∈ t'.rows ↔
      (x ∈ t.rows ∧ x ≠ k) ∨ (x = { k with revokedAt := some stamp } ∧ k ∈ t.rows) := by
    intro x
    rw [hrows, mem_replaceRow]
  refine ⟨fun x hx => ?_, fun {id scope raw} hc => ?_, fun {id} => ?_⟩
  · rcases (hmem x).mp hx with ⟨hx, -⟩ | ⟨rfl, -⟩
    · obtain ⟨raw, hx', hlog⟩ := h.rows x hx
      exact ⟨raw, hx', List.mem_append_left _ hlog⟩
    · obtain ⟨raw, hk', hlog⟩ := h.rows k hk
      exact ⟨raw, hk', List.mem_append_left _ hlog⟩
  · rcases List.mem_append.mp hc with hc | hc
    · obtain ⟨x, hx, hid, hscope, hholds⟩ := h.created hc
      by_cases hxk : x = k
      · exact ⟨_, (hmem _).mpr (.inr ⟨rfl, hk⟩), hxk ▸ hid, hxk ▸ hscope, hxk ▸ hholds⟩
      · exact ⟨x, (hmem x).mpr (.inl ⟨hx, hxk⟩), hid, hscope, hholds⟩
    · cases List.mem_singleton.mp hc
  · rw [List.mem_append, List.mem_singleton, h.revoked]
    constructor
    · rintro (⟨x, hx, hid, hx'⟩ | hid)
      · by_cases hxk : x = k
        · exact ⟨_, (hmem _).mpr (.inr ⟨rfl, hk⟩), hxk ▸ hid, rfl⟩
        · exact ⟨x, (hmem x).mpr (.inl ⟨hx, hxk⟩), hid, hx'⟩
      · cases hid
        exact ⟨_, (hmem _).mpr (.inr ⟨rfl, hk⟩), rfl, rfl⟩
    · rintro ⟨x, hx, hid, hx'⟩
      rcases (hmem x).mp hx with ⟨hx, -⟩ | ⟨rfl, -⟩
      · exact .inl ⟨x, hx, hid, hx'⟩
      · exact .inr (congrArg KeyEvent.revoked hid.symm)

theorem authenticate_eq_some {raw : String} {p : Principal} :
    authenticate sha256 t raw = some p ↔
      ∃ presented, parseKey raw = some presented ∧ ∃ k ∈ t.rows, k.lookup = presented.lookup ∧
        k.secretHash = sha256 presented.secret ∧ k.revokedAt = none ∧ p = ⟨k.id, k.scope⟩ := by
  simp only [authenticate, Option.bind_eq_bind, Option.bind_eq_some_iff]
  refine exists_congr fun presented => and_congr_right fun _ => ?_
  constructor
  · rintro ⟨k, hf, h⟩
    obtain ⟨hfm, hsel⟩ := found_of_find? hf
    split_ifs at h with hsecret hlive
    cases h
    refine ⟨k, hfm, beq_iff_eq.mp hsel, ?_, ?_, rfl⟩
    · rw [Bool.not_eq_true', Bool.not_eq_false, verifySecret_eq_true] at hsecret
      exact hsecret
    · exact Option.not_isSome_iff_eq_none.mp hlive
  · rintro ⟨k, hk, hlookup, hhash, hlive, rfl⟩
    have hf : t.rows.find? (fun k => k.lookup == presented.lookup) = some k := by
      refine find?_eq_some_of_unique hk (beq_iff_eq.mpr hlookup) fun x hx hxp => ?_
      exact key_eq_of_lookup hx hk ((beq_iff_eq.mp hxp).trans hlookup.symm)
    refine ⟨k, hf, ?_⟩
    rw [verifySecret_eq_true.mpr hhash, hlive]
    rfl

/-- A key has one scope. -/
theorem KeysRecorded.scope_unique {scope scope' raw raw' : String} (h : KeysRecorded sha256 log t)
    (hc : .created id scope raw ∈ log) (hc' : .created id scope' raw' ∈ log) : scope = scope' := by
  obtain ⟨k, hk, hid, rfl, -⟩ := h.created hc
  obtain ⟨k', hk', hid', rfl, -⟩ := h.created hc'
  rw [key_eq_of_id hk hk' (hid.trans hid'.symm)]

/-- A revoked key is found revoked. -/
theorem KeysRecorded.isRevoked (h : KeysRecorded sha256 log t) (hid : .revoked id ∈ log) :
    isRevoked t id = true := by
  obtain ⟨k, hk, rfl, hstamped⟩ := h.revoked.mp hid
  have hf : t.rows.find? (fun x => x.id == k.id) = some k :=
    find?_eq_some_of_unique hk (beq_self_eq_true k.id) fun x hx hxp =>
      key_eq_of_id hx hk (beq_iff_eq.mp hxp)
  rw [TaskForge.isRevoked, hf]
  exact hstamped

end Store

/-! ## Who is let in -/

/-- The keys that were created. -/
def minted (log : List KeyEvent) : List String :=
  log.filterMap fun
    | .created _ _ raw => some raw
    | .revoked _ => none

/-- SHA-256 tells the secrets of these texts apart. -/
def CollisionFree (sha256 : String → String) (raws : List String) : Prop :=
  ∀ x ∈ raws, ∀ y ∈ raws, ∀ p q, parseKey x = some p → parseKey y = some q →
    sha256 p.secret = sha256 q.secret → p.secret = q.secret

theorem mem_minted {log : List KeyEvent} {id : UUID} {scope raw : String}
    (h : .created id scope raw ∈ log) : raw ∈ minted log :=
  List.mem_filterMap.mpr ⟨_, h, rfl⟩

/-- **A text is let in with a scope exactly when it is a key that was created for the
scope and not revoked.** -/
theorem KeysRecorded.authenticate {sha256 : String → String} {log : List KeyEvent} {t : KeyTable}
    {raw scope : String} {id : UUID} (h : KeysRecorded sha256 log t)
    (hfree : CollisionFree sha256 (raw :: minted log)) :
    authenticate sha256 t raw = some ⟨id, scope⟩ ↔
      .created id scope raw ∈ log ∧ .revoked id ∉ log := by
  rw [authenticate_eq_some]
  constructor
  · rintro ⟨p, hp, k, hk, hlookup, hhash, hlive, hprincipal⟩
    cases hprincipal
    obtain ⟨raw', ⟨m, hm, hmlookup, hmhash, rfl⟩, hlog⟩ := h.rows k hk
    have hsecret : p.secret = m.secret := by
      refine hfree raw List.mem_cons_self m.raw (List.mem_cons_of_mem _ (mem_minted hlog)) p _ hp
        hm.parse ?_
      rw [← hhash, hmhash, hm.hash]
    have hraw : m.raw = raw := by
      rw [(parseKey_eq_some hp).raw_eq, ← hlookup, hmlookup, hsecret]
      rfl
    refine ⟨hraw ▸ hlog, fun hrevoked => ?_⟩
    obtain ⟨k', hk', hid, hstamped⟩ := h.revoked.mp hrevoked
    rw [key_eq_of_id hk' hk hid, hlive] at hstamped
    cases hstamped
  · rintro ⟨hcreated, hrevoked⟩
    obtain ⟨k, hk, rfl, rfl, m, hm, hlookup, hhash, rfl⟩ := h.created hcreated
    refine ⟨_, hm.parse, k, hk, hlookup, hhash.trans hm.hash, ?_, rfl⟩
    cases hk' : k.revokedAt with
    | none => rfl
    | some at' => exact absurd (h.revoked.mpr ⟨k, hk, rfl, by rw [hk']; rfl⟩) hrevoked

end TaskForge
