import FlareAuth.Failure
import FlareAuth.Text.Base64
import FlareAuth.Text.Encodings

/-!
# Stored passwords

A password is stored as the text of a derived key. Accounts that were moved from an earlier system
have the text of its key instead, and an account that was merged from several has a bundle of all
their texts, each of which opens it.
-/

namespace FlareAuth.Passwords

open Text

/-- The functions that derive a key from a password. -/
class KeyDerivation where
  pbkdf2 : List UInt8 → List UInt8 → ℕ → List UInt8
  scrypt : List Char → List Char → List UInt8
  /-- `normalize('NFKC')`. -/
  normalize : List Char → List Char

/-- `Number` of a text, if it is an integer. -/
class Numbers where
  integer : List Char → Option ℤ
  integer_toDigits : ∀ n ≤ 210000, integer (Nat.toDigits 10 n) = some (n : ℤ)

def iterations : ℕ := 100000

def maxIterations : ℕ := 210000

def format : List Char := "pbkdf2-sha256".toList

def legacyFormat : List Char := "better-auth-scrypt-v1".toList

def bundleFormat : List Char := "realmroot-password-bundle-v1".toList

def legacySaltHexLength : ℕ := 32

def legacyKeyHexLength : ℕ := 128

/-- `join(':')`. -/
def joined (parts : List (List Char)) : List Char := [':'].intercalate parts

section Texts

/-- Every byte is looked at, whether an earlier one differs or not. -/
def timingSafeEqual (a b : List UInt8) : Bool :=
  if a.length ≠ b.length then false
  else (a.zip b).foldl (fun result x => result ||| (x.1 ^^^ x.2)) 0 == 0

def decodeBase64Url (value : Option (List Char)) : Except Failure (List UInt8) :=
  match value with
  | none => .error (.error "undefined")
  | some value =>
    match fromBase64Url value with
    | some bytes => .ok bytes
    | none => .error (.error "InvalidCharacterError")

def parseIterations [Numbers] (value : Option (List Char)) : Except Failure ℕ :=
  match value.bind Numbers.integer with
  | some n =>
    if 1 ≤ n ∧ n ≤ maxIterations then .ok n.toNat
    else .error (.error ("Unsupported password hash iterations: " ++ String.ofList (value.getD [])))
  | none => .error (.error ("Unsupported password hash iterations: " ++
      value.elim "undefined" String.ofList))

def hexValue (c : Char) : Option ℕ :=
  if c.isDigit then some (c.toNat - '0'.toNat)
  else if 'a' ≤ c ∧ c ≤ 'f' then some (c.toNat - 'a'.toNat + 10)
  else if 'A' ≤ c ∧ c ≤ 'F' then some (c.toNat - 'A'.toNat + 10)
  else none

def isHex (value : Option (List Char)) (length : ℕ) : Bool :=
  value.any fun value => value.length == length && value.all fun c => (hexValue c).isSome

/-- `Number.parseInt` of each pair of digits. -/
def decodeHex : List Char → List UInt8
  | a :: b :: rest =>
    UInt8.ofNat ((hexValue a).getD 0 * 16 + (hexValue b).getD 0) :: decodeHex rest
  | _ => []

/-- The texts of a bundle, still encoded. -/
def encodedHashes (hash : List Char) : Except Failure (List (List Char)) :=
  let parts := hash.splitOn ':'
  let encoded := parts.tail
  if parts.head? ≠ some bundleFormat ∨ encoded.length < 2 ∨ 4 < encoded.length ∨
      encoded.any (·.isEmpty) then .error (.error "Invalid password bundle")
  else .ok encoded

def decodeString (value : List Char) : Except Failure (List Char) :=
  match fromBase64Url value with
  | some bytes => .ok (scalars (textDecode bytes))
  | none => .error (.error "InvalidCharacterError")

/-- The loop over the texts of a bundle, which ends at the first that the password opens. -/
def firstOpened {α : Type} (verify : α → Except Failure Bool) : List α → Except Failure Bool
  | [] => .ok false
  | a :: as => do if ← verify a then return true else firstOpened verify as

theorem length_joined (parts : List (List Char)) {part : List Char} (h : part ∈ parts) :
    part.length ≤ (joined parts).length := by
  induction parts with
  | nil => cases h
  | cons first rest ih =>
    cases rest with
    | nil => simp [joined, List.mem_singleton.mp h]
    | cons second rest =>
      have hjoined : joined (first :: second :: rest) =
          first ++ ':' :: joined (second :: rest) := by
        simp [joined, List.intercalate]
      rw [hjoined, List.length_append, List.length_cons]
      rcases List.mem_cons.mp h with rfl | h
      · omega
      · have := ih h
        omega

/-- A part behind the first separator is shorter than the text. -/
theorem length_of_mem_tail {text part : List Char} (h : part ∈ (text.splitOn ':').tail) :
    part.length < text.length := by
  have htext : joined (text.splitOn ':') = text := List.intercalate_splitOn ':'
  cases hparts : text.splitOn ':' with
  | nil =>
    rw [hparts] at h
    cases h
  | cons first rest =>
    rw [hparts] at h htext
    cases rest with
    | nil => cases h
    | cons second rest =>
      have hjoined : joined (first :: second :: rest) =
          first ++ ':' :: joined (second :: rest) := by
        simp [joined, List.intercalate]
      have hrest := length_joined (second :: rest) h
      rw [← htext, hjoined, List.length_append, List.length_cons]
      omega

theorem mem_tail_of_encodedHashes {hash value : List Char} {encoded : List (List Char)}
    (h : encodedHashes hash = .ok encoded) (hvalue : value ∈ encoded) :
    value ∈ (hash.splitOn ':').tail := by
  unfold encodedHashes at h
  dsimp only at h
  split at h
  · cases h
  · rwa [Except.ok.inj h]

theorem length_decodeString {value inner : List Char} (h : decodeString value = .ok inner) :
    inner.length ≤ value.length := by
  unfold decodeString at h
  cases hbytes : fromBase64Url value with
  | none =>
    rw [hbytes] at h
    cases h
  | some bytes =>
    rw [hbytes] at h
    obtain rfl := Except.ok.inj h
    exact (length_scalars_textDecode bytes).trans (length_fromBase64Url hbytes)

end Texts

section Source

variable [KeyDerivation]

def deriveKey (password : List Char) (salt : List UInt8) (iterationCount : ℕ) : List UInt8 :=
  KeyDerivation.pbkdf2 (utf8 password) salt iterationCount

def hashPassword (salt : List UInt8) (password : List Char) : List Char :=
  joined [format, Nat.toDigits 10 iterations, (base64Url salt).toList,
    (base64Url (deriveKey password salt iterations)).toList]

def verifyPassword [Numbers] (hash password : List Char) : Except Failure Bool := do
  let parts := hash.splitOn ':'
  if parts.head? ≠ some format then
    .error (.error ("Unsupported password hash format: " ++ String.ofList (parts.headD [])))
  else
    let iterationCount ← parseIterations parts[1]?
    let salt ← decodeBase64Url parts[2]?
    let expectedKey ← decodeBase64Url parts[3]?
    return timingSafeEqual (deriveKey password salt iterationCount) expectedKey

def verifyLegacyPassword (hash password : List Char) : Except Failure Bool :=
  let parts := hash.splitOn ':'
  if parts.head? ≠ some legacyFormat ∨ parts[3]?.isSome ∨
      !isHex parts[1]? legacySaltHexLength ∨ !isHex parts[2]? legacyKeyHexLength then
    .error (.error "Invalid Better Auth password hash")
  else
    let salt := parts[1]?.getD []
    let expectedKey := parts[2]?.getD []
    .ok (timingSafeEqual (KeyDerivation.scrypt (KeyDerivation.normalize password) salt)
      (decodeHex expectedKey))

def verifyStoredPassword [Numbers] (hash password : List Char) : Except Failure Bool :=
  if (legacyFormat ++ [':']).isPrefixOf hash then verifyLegacyPassword hash password
  else if (bundleFormat ++ [':']).isPrefixOf hash then
    match _hencoded : encodedHashes hash with
    | .error e => .error e
    | .ok encoded =>
      firstOpened (fun value : { value // value ∈ encoded } =>
        match _hinner : decodeString value.1 with
        | .error e => .error e
        | .ok inner => verifyStoredPassword inner password) encoded.attach
  else verifyPassword hash password
termination_by hash.length
decreasing_by
  have hvalue := mem_tail_of_encodedHashes _hencoded value.2
  exact (length_decodeString _hinner).trans_lt (length_of_mem_tail hvalue)

end Source

end FlareAuth.Passwords
