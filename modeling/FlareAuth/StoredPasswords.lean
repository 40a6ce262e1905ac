import FlareAuth.Passwords

/-!
# What opens an account

A stored text stands for a tree of keys. A password opens the account if it gives one of them, and
nothing else does, whatever the text is.
-/

namespace FlareAuth.Passwords

open Text

section Loops

variable {α β : Type}

theorem ok_bind (a : α) (f : α → Except Failure β) : (Except.ok a >>= f) = f a := rfl

theorem firstOpened_map (verify : β → Except Failure Bool) (f : α → β) (as : List α) :
    firstOpened verify (as.map f) = firstOpened (fun a => verify (f a)) as := by
  induction as with
  | nil => rfl
  | cons a as ih => rw [List.map_cons, firstOpened, firstOpened, ih]

theorem firstOpened_attach (verify : α → Except Failure Bool) (as : List α) :
    firstOpened (fun a : { a // a ∈ as } => verify a.1) as.attach = firstOpened verify as := by
  rw [← firstOpened_map, List.attach_map_subtype_val]

/-- If every text can be read, the loop finds whether one of them is opened. -/
theorem firstOpened_ok {verify : α → Except Failure Bool} {opens : α → Bool} {as : List α}
    (h : ∀ a ∈ as, verify a = .ok (opens a)) : firstOpened verify as = .ok (as.any opens) := by
  induction as with
  | nil => rfl
  | cons a as ih =>
    have hrest := ih fun b hb => h b (List.mem_cons_of_mem _ hb)
    rw [firstOpened, h a List.mem_cons_self, List.any_cons]
    cases hopens : opens a with
    | true => rfl
    | false => exact hrest

theorem exists_of_firstOpened {verify : α → Except Failure Bool} {as : List α}
    (h : firstOpened verify as = .ok true) : ∃ a ∈ as, verify a = .ok true := by
  induction as with
  | nil => cases h
  | cons a as ih =>
    rw [firstOpened] at h
    obtain ⟨b, hb, h⟩ := except_bind_eq_ok h
    cases b with
    | true => exact ⟨a, List.mem_cons_self, hb⟩
    | false =>
      obtain ⟨a', ha', hverify⟩ := ih h
      exact ⟨a', List.mem_cons_of_mem _ ha', hverify⟩

/-- The comparison looks at all bytes and is right. -/
theorem timingSafeEqual_eq (a b : List UInt8) : timingSafeEqual a b = decide (a = b) := by
  have hloop : ∀ (a b : List UInt8) (result : UInt8), a.length = b.length →
      ((a.zip b).foldl (fun result x => result ||| (x.1 ^^^ x.2)) result = 0 ↔
        result = 0 ∧ a = b) := by
    intro a
    induction a with
    | nil =>
      intro b result hlength
      obtain rfl := List.length_eq_zero_iff.mp hlength.symm
      simp
    | cons x a ih =>
      intro b result hlength
      cases b with
      | nil => cases hlength
      | cons y b =>
        rw [List.zip_cons_cons, List.foldl_cons, ih b _ (Nat.succ.inj hlength),
          UInt8.or_eq_zero_iff, UInt8.xor_eq_zero_iff, List.cons.injEq, and_assoc]
  unfold timingSafeEqual
  split
  · rename_i hlength
    exact (decide_eq_false fun heq => hlength (congrArg List.length heq)).symm
  · rename_i hlength
    have hiff := hloop a b 0 (not_not.mp hlength)
    rw [Bool.eq_iff_iff, beq_iff_eq, decide_eq_true_eq, hiff]
    simp

end Loops

section Hashes

structure DerivedHash where
  iterations : ℕ
  salt : List UInt8
  key : List UInt8
  positive : 1 ≤ iterations
  bounded : iterations ≤ maxIterations

/-- A key of the earlier system, with its salt as it is written. -/
structure LegacyHash where
  salt : List Char
  key : List Char
  salt_hex : isHex (some salt) legacySaltHexLength = true
  key_hex : isHex (some key) legacyKeyHexLength = true

inductive StoredHash where
  | realmroot (h : DerivedHash)
  | legacy (h : LegacyHash)
  | two (first second : StoredHash)
  | three (first second third : StoredHash)
  | four (first second third fourth : StoredHash)

def DerivedHash.text (h : DerivedHash) : List Char :=
  joined [format, Nat.toDigits 10 h.iterations, (base64Url h.salt).toList, (base64Url h.key).toList]

def LegacyHash.text (h : LegacyHash) : List Char := joined [legacyFormat, h.salt, h.key]

def encoded (text : List Char) : List Char := (base64Url (textEncode (utf16 text))).toList

/-- A bundle of texts, which are encoded so that they have no separators. -/
def bundled (texts : List (List Char)) : List Char := joined (bundleFormat :: texts.map encoded)

def StoredHash.text : StoredHash → List Char
  | realmroot h => h.text
  | legacy h => h.text
  | two a b => bundled [a.text, b.text]
  | three a b c => bundled [a.text, b.text, c.text]
  | four a b c d => bundled [a.text, b.text, c.text, d.text]

variable [KeyDerivation] (password : List Char)

def DerivedHash.opens (h : DerivedHash) : Bool :=
  decide (deriveKey password h.salt h.iterations = h.key)

def LegacyHash.opens (h : LegacyHash) : Bool :=
  decide (KeyDerivation.scrypt (KeyDerivation.normalize password) h.salt = decodeHex h.key)

def StoredHash.opens : StoredHash → Bool
  | realmroot h => h.opens password
  | legacy h => h.opens password
  | two a b => a.opens || b.opens
  | three a b c => a.opens || b.opens || c.opens
  | four a b c d => a.opens || b.opens || c.opens || d.opens

end Hashes

section Texts

theorem joined_cons (first second : List Char) (rest : List (List Char)) :
    joined (first :: second :: rest) = first ++ ':' :: joined (second :: rest) := by
  simp [joined, List.intercalate]

theorem splitOn_joined {parts : List (List Char)} (hne : parts ≠ []) (h : ∀ p ∈ parts, ':' ∉ p) :
    (joined parts).splitOn ':' = parts := List.splitOn_intercalate ':' h hne

theorem colon_not_mem_toDigits (n : ℕ) : ':' ∉ Nat.toDigits 10 n := by
  intro hcolon
  have hdigit := Nat.isDigit_of_mem_toDigits (by decide) (by decide) hcolon
  exact absurd hdigit (by decide)

theorem colon_not_mem_of_isHex {value : List Char} {length : ℕ}
    (h : isHex (some value) length = true) :
    ':' ∉ value := by
  intro hcolon
  rw [isHex, Option.any_some, Bool.and_eq_true, List.all_eq_true] at h
  exact absurd (h.2 ':' hcolon) (by decide)

theorem format_eq : format = 'p' :: "bkdf2-sha256".toList := rfl

theorem legacyFormat_eq : legacyFormat = 'b' :: "etter-auth-scrypt-v1".toList := rfl

theorem bundleFormat_eq : bundleFormat = 'r' :: "ealmroot-password-bundle-v1".toList := rfl

/-- The texts of the three formats begin with different letters. -/
theorem prefix_joined (name other : List Char) (second : List Char) (rest : List (List Char)) :
    (name ++ [':']).isPrefixOf (joined (name :: second :: rest)) = true ∧
      (other.head? ≠ name.head? → name ≠ [] → other ≠ [] →
        (other ++ [':']).isPrefixOf (joined (name :: second :: rest)) = false) := by
  rw [joined_cons]
  constructor
  · rw [List.isPrefixOf_iff_prefix]
    exact ⟨joined (second :: rest), by simp⟩
  · intro hhead hname hother
    obtain ⟨c, name, rfl⟩ := List.exists_cons_of_ne_nil hname
    obtain ⟨d, other, rfl⟩ := List.exists_cons_of_ne_nil hother
    have hne : d ≠ c := fun h => hhead (by rw [h]; rfl)
    simp [List.isPrefixOf, hne]

theorem splitOn_derived (h : DerivedHash) : h.text.splitOn ':' =
    [format, Nat.toDigits 10 h.iterations, (base64Url h.salt).toList,
      (base64Url h.key).toList] := by
  refine splitOn_joined (List.cons_ne_nil _ _) fun p hp => ?_
  simp only [List.mem_cons, List.not_mem_nil, or_false] at hp
  rcases hp with rfl | rfl | rfl | rfl
  · decide
  · exact colon_not_mem_toDigits _
  · exact colon_not_mem_base64Url _
  · exact colon_not_mem_base64Url _

theorem splitOn_legacy (h : LegacyHash) : h.text.splitOn ':' = [legacyFormat, h.salt, h.key] := by
  refine splitOn_joined (List.cons_ne_nil _ _) fun p hp => ?_
  simp only [List.mem_cons, List.not_mem_nil, or_false] at hp
  rcases hp with rfl | rfl | rfl
  · decide
  · exact colon_not_mem_of_isHex h.salt_hex
  · exact colon_not_mem_of_isHex h.key_hex

theorem splitOn_bundled (texts : List (List Char)) :
    (bundled texts).splitOn ':' = bundleFormat :: texts.map encoded := by
  refine splitOn_joined (List.cons_ne_nil _ _) fun p hp => ?_
  rcases List.mem_cons.mp hp with rfl | hp
  · decide
  · obtain ⟨text, -, rfl⟩ := List.mem_map.mp hp
    exact colon_not_mem_base64Url _

/-- A text is read back from a bundle unless it is empty or begins with a byte order mark. -/
theorem decodeString_encoded {text : List Char} (h : text.head? ≠ some byteOrderMark) :
    decodeString (encoded text) = .ok text := by
  unfold decodeString encoded
  rw [fromBase64Url_base64Url]
  dsimp only
  rw [(textDecode_textEncode_iff text).mpr h, scalars_utf16]

theorem encoded_ne_nil {text : List Char} (h : text ≠ []) : encoded text ≠ [] := by
  refine base64Url_ne_nil fun hnil => h ?_
  rw [textEncode, scalars_utf16] at hnil
  exact utf8_injective hnil

theorem head_text (h : StoredHash) :
    h.text ≠ [] ∧ h.text.head? ≠ some byteOrderMark := by
  have hjoined : ∀ name second rest, name.head? = some 'p' ∨ name.head? = some 'b' ∨
      name.head? = some 'r' → joined (name :: second :: rest) ≠ [] ∧
        (joined (name :: second :: rest)).head? ≠ some byteOrderMark := by
    intro name second rest hhead
    cases name with
    | nil => simp at hhead
    | cons c name =>
      have hc : c ≠ byteOrderMark := by
        rintro rfl
        simp only [List.head?_cons, Option.some.injEq] at hhead
        revert hhead
        decide
      rw [joined_cons]
      exact ⟨List.cons_ne_nil _ _, fun h => hc (Option.some.inj h)⟩
  cases h with
  | realmroot h => exact hjoined _ _ _ (.inl (by rw [format_eq]; rfl))
  | legacy h => exact hjoined _ _ _ (.inr (.inl (by rw [legacyFormat_eq]; rfl)))
  | two a b => exact hjoined _ _ _ (.inr (.inr (by rw [bundleFormat_eq]; rfl)))
  | three a b c => exact hjoined _ _ _ (.inr (.inr (by rw [bundleFormat_eq]; rfl)))
  | four a b c d => exact hjoined _ _ _ (.inr (.inr (by rw [bundleFormat_eq]; rfl)))

end Texts

section Verification

variable [KeyDerivation] [Numbers] {password : List Char}

theorem verifyStoredPassword_of_legacy {hash : List Char}
    (h : (legacyFormat ++ [':']).isPrefixOf hash = true) :
    verifyStoredPassword hash password = verifyLegacyPassword hash password := by
  rw [verifyStoredPassword, if_pos h]

theorem verifyStoredPassword_of_derived {hash : List Char}
    (hlegacy : (legacyFormat ++ [':']).isPrefixOf hash = false)
    (hbundle : (bundleFormat ++ [':']).isPrefixOf hash = false) :
    verifyStoredPassword hash password = verifyPassword hash password := by
  rw [verifyStoredPassword, if_neg (by simp [hlegacy]), if_neg (by simp [hbundle])]

/-- A bundle is opened text by text. -/
theorem verifyStoredPassword_of_bundle {hash : List Char}
    (hlegacy : (legacyFormat ++ [':']).isPrefixOf hash = false)
    (hbundle : (bundleFormat ++ [':']).isPrefixOf hash = true) :
    verifyStoredPassword hash password = encodedHashes hash >>= firstOpened fun value =>
      decodeString value >>= fun inner => verifyStoredPassword inner password := by
  rw [verifyStoredPassword, if_neg (by simp [hlegacy]), if_pos hbundle]
  split
  · rename_i hfailed
    rw [hfailed]
    rfl
  · rename_i found hfound
    rw [hfound]
    refine Eq.trans ?_ (firstOpened_attach _ found)
    congr 1
    funext value
    split
    · rename_i hinner
      rw [hinner]
      rfl
    · rename_i hinner
      rw [hinner]
      rfl

theorem verify_derived (h : DerivedHash) :
    verifyStoredPassword h.text password = .ok (h.opens password) := by
  have hlegacy : (legacyFormat ++ [':']).isPrefixOf h.text = false :=
    (prefix_joined format legacyFormat _ _).2 (by decide) (by decide) (by decide)
  have hbundle : (bundleFormat ++ [':']).isPrefixOf h.text = false :=
    (prefix_joined format bundleFormat _ _).2 (by decide) (by decide) (by decide)
  have hiterations : parseIterations (some (Nat.toDigits 10 h.iterations)) = .ok h.iterations := by
    unfold parseIterations
    rw [Option.bind_some, Numbers.integer_toDigits _ h.bounded]
    have hrange : 1 ≤ (h.iterations : ℤ) ∧ (h.iterations : ℤ) ≤ maxIterations := by
      exact ⟨by exact_mod_cast h.positive, by exact_mod_cast h.bounded⟩
    simp [hrange]
  have hbytes : ∀ bytes, decodeBase64Url (some (base64Url bytes).toList) = .ok bytes := by
    intro bytes
    simp [decodeBase64Url, fromBase64Url_base64Url]
  rw [verifyStoredPassword_of_derived hlegacy hbundle, verifyPassword, splitOn_derived]
  simp only [List.head?_cons, ne_eq, not_true_eq_false, if_false, List.getElem?_cons_succ,
    List.getElem?_cons_zero, hiterations, hbytes, timingSafeEqual_eq]
  rfl

theorem verify_legacy (h : LegacyHash) :
    verifyStoredPassword h.text password = .ok (h.opens password) := by
  have hlegacy : (legacyFormat ++ [':']).isPrefixOf h.text = true :=
    (prefix_joined legacyFormat format _ _).1
  rw [verifyStoredPassword_of_legacy hlegacy, verifyLegacyPassword, splitOn_legacy]
  simp [h.salt_hex, h.key_hex, timingSafeEqual_eq, LegacyHash.opens]

variable (password) in
/-- A bundle of texts is opened by what opens one of them. -/
theorem verify_bundled (hashes : List StoredHash) (hfew : 2 ≤ hashes.length)
    (hmany : hashes.length ≤ 4)
    (h : ∀ a ∈ hashes, verifyStoredPassword a.text password = .ok (a.opens password)) :
    verifyStoredPassword (bundled (hashes.map StoredHash.text)) password =
      .ok (hashes.any (StoredHash.opens password)) := by
  obtain ⟨first, rest, rfl⟩ : ∃ first rest, hashes = first :: rest := by
    cases hashes with
    | nil => simp at hfew
    | cons first rest => exact ⟨first, rest, rfl⟩
  have hlegacy : (legacyFormat ++ [':']).isPrefixOf
      (bundled ((first :: rest).map StoredHash.text)) = false :=
    (prefix_joined bundleFormat legacyFormat _ _).2 (by decide) (by decide)
      (by decide)
  have hbundle : (bundleFormat ++ [':']).isPrefixOf
      (bundled ((first :: rest).map StoredHash.text)) = true :=
    (prefix_joined bundleFormat format _ _).1
  have hencoded : encodedHashes (bundled ((first :: rest).map StoredHash.text)) =
      .ok (((first :: rest).map StoredHash.text).map encoded) := by
    unfold encodedHashes
    rw [splitOn_bundled]
    dsimp only
    rw [if_neg]
    · rfl
    · rintro (hname | hshort | hlong | hempty)
      · exact hname rfl
      · simp only [List.tail_cons, List.length_map] at hshort
        omega
      · simp only [List.tail_cons, List.length_map] at hlong
        omega
      · obtain ⟨value, hvalue, hempty⟩ := List.any_eq_true.mp hempty
        obtain ⟨text, htext, rfl⟩ := List.mem_map.mp hvalue
        obtain ⟨a, -, rfl⟩ := List.mem_map.mp htext
        exact encoded_ne_nil (head_text a).1 (List.isEmpty_iff.mp hempty)
  rw [verifyStoredPassword_of_bundle hlegacy hbundle, hencoded, ok_bind, firstOpened_map,
    firstOpened_map]
  refine firstOpened_ok fun a ha => ?_
  rw [decodeString_encoded (head_text a).2, ok_bind]
  exact h a ha

/-- A text of a tree of keys is opened by the passwords that give one of them. -/
theorem verify_text (h : StoredHash) :
    verifyStoredPassword h.text password = .ok (h.opens password) := by
  induction h with
  | realmroot h => exact verify_derived h
  | legacy h => exact verify_legacy h
  | two a b ha hb =>
    have hall := verify_bundled password [a, b] (by simp) (by simp)
      (by simp [ha, hb])
    simpa [StoredHash.text, StoredHash.opens] using hall
  | three a b c ha hb hc =>
    have hall := verify_bundled password [a, b, c] (by simp) (by simp)
      (by simp [ha, hb, hc])
    simpa [StoredHash.text, StoredHash.opens, Bool.or_assoc] using hall
  | four a b c d ha hb hc hd =>
    have hall := verify_bundled password [a, b, c, d] (by simp) (by simp)
      (by simp [ha, hb, hc, hd])
    simpa [StoredHash.text, StoredHash.opens, Bool.or_assoc] using hall

end Verification

section Acceptance

inductive StoredKey where
  | derived (h : DerivedHash)
  | legacy (h : LegacyHash)

def StoredKey.opens [KeyDerivation] (password : List Char) : StoredKey → Bool
  | derived h => h.opens password
  | legacy h => h.opens password

/-- A text holds the key that it spells, and a bundle those of its texts. -/
inductive Holds [Numbers] : List Char → StoredKey → Prop
  | derived {hash count salt key : List Char} {rest : List (List Char)} {h : DerivedHash}
      (parts : hash.splitOn ':' = format :: count :: salt :: key :: rest)
      (iterations : Numbers.integer count = some (h.iterations : ℤ))
      (salt_eq : fromBase64Url salt = some h.salt) (key_eq : fromBase64Url key = some h.key) :
      Holds hash (.derived h)
  | legacy {hash : List Char} {h : LegacyHash}
      (parts : hash.splitOn ':' = [legacyFormat, h.salt, h.key]) : Holds hash (.legacy h)
  | bundle {hash value inner : List Char} {values : List (List Char)} {key : StoredKey}
      (parts : hash.splitOn ':' = bundleFormat :: values) (few : 2 ≤ values.length)
      (many : values.length ≤ 4) (member : value ∈ values) (text : decodeString value = .ok inner)
      (held : Holds inner key) : Holds hash key

theorem parts_of_encodedHashes {hash : List Char} {values : List (List Char)}
    (h : encodedHashes hash = .ok values) : hash.splitOn ':' = bundleFormat :: values ∧
      2 ≤ values.length ∧ values.length ≤ 4 := by
  unfold encodedHashes at h
  dsimp only at h
  split at h
  · cases h
  · rename_i hvalid
    simp only [not_or, not_not, not_lt] at hvalid
    obtain ⟨hformat, hfew, hmany, -⟩ := hvalid
    obtain rfl := Except.ok.inj h
    obtain ⟨name, hname⟩ := List.head?_eq_some_iff.mp hformat
    rw [hname] at hfew hmany ⊢
    exact ⟨rfl, hfew, hmany⟩

theorem parseIterations_ok [Numbers] {value : Option (List Char)} {n : ℕ}
    (h : parseIterations value = .ok n) :
    ∃ count, value = some count ∧ Numbers.integer count = some (n : ℤ) ∧ 1 ≤ n ∧
      n ≤ maxIterations := by
  unfold parseIterations at h
  split at h
  · rename_i m hm
    split at h
    · rename_i hrange
      obtain ⟨count, hcount, hinteger⟩ := Option.bind_eq_some_iff.mp hm
      obtain rfl := Except.ok.inj h
      refine ⟨count, hcount, ?_, by omega, by omega⟩
      rw [hinteger, Int.toNat_of_nonneg (by omega)]
    · cases h
  · cases h

theorem decodeBase64Url_ok {value : Option (List Char)} {bytes : List UInt8}
    (h : decodeBase64Url value = .ok bytes) :
    ∃ text, value = some text ∧ fromBase64Url text = some bytes := by
  unfold decodeBase64Url at h
  split at h
  · cases h
  · split at h
    · rename_i hbytes
      obtain rfl := Except.ok.inj h
      exact ⟨_, rfl, hbytes⟩
    · cases h

variable [KeyDerivation] [Numbers] {hash password : List Char}

theorem holds_of_verifyPassword (h : verifyPassword hash password = .ok true) :
    ∃ key, Holds hash key ∧ key.opens password = true := by
  unfold verifyPassword at h
  dsimp only at h
  split at h
  · cases h
  · rename_i hformat
    obtain ⟨count, hcount, h⟩ := except_bind_eq_ok h
    obtain ⟨salt, hsalt, h⟩ := except_bind_eq_ok h
    obtain ⟨key, hkey, h⟩ := except_bind_eq_ok h
    obtain ⟨countText, hcountText, hinteger, hpositive, hbounded⟩ := parseIterations_ok hcount
    obtain ⟨saltText, hsaltText, hsaltBytes⟩ := decodeBase64Url_ok hsalt
    obtain ⟨keyText, hkeyText, hkeyBytes⟩ := decodeBase64Url_ok hkey
    have hequal := Except.ok.inj h
    rw [timingSafeEqual_eq, decide_eq_true_eq] at hequal
    obtain ⟨first, second, third, fourth, rest, hparts⟩ : ∃ first second third fourth rest,
        hash.splitOn ':' = first :: second :: third :: fourth :: rest := by
      generalize hash.splitOn ':' = parts at hkeyText
      match parts, hkeyText with
      | first :: second :: third :: fourth :: rest, _ =>
        exact ⟨first, second, third, fourth, rest, rfl⟩
    rw [hparts] at hformat hcountText hsaltText hkeyText
    obtain rfl : first = format := by simpa using hformat
    obtain rfl : second = countText := Option.some.inj hcountText
    obtain rfl : third = saltText := Option.some.inj hsaltText
    obtain rfl : fourth = keyText := Option.some.inj hkeyText
    refine ⟨.derived ⟨count, salt, key, hpositive, hbounded⟩,
      .derived hparts hinteger hsaltBytes hkeyBytes, ?_⟩
    exact decide_eq_true hequal

omit [Numbers] in
theorem legacy_of_verifyLegacyPassword (h : verifyLegacyPassword hash password = .ok true) :
    ∃ key : LegacyHash, hash.splitOn ':' = [legacyFormat, key.salt, key.key] ∧
      key.opens password = true := by
  unfold verifyLegacyPassword at h
  dsimp only at h
  split at h
  · cases h
  · rename_i hvalid
    simp only [not_or, not_not, Bool.not_eq_true', Bool.not_eq_false, Bool.not_eq_true]
      at hvalid
    obtain ⟨hformat, hextra, hsalt, hkey⟩ := hvalid
    obtain ⟨first, second, third, hparts⟩ : ∃ first second third,
        hash.splitOn ':' = [first, second, third] := by
      generalize hash.splitOn ':' = parts at hextra hkey
      match parts with
      | [first, second, third] => exact ⟨first, second, third, rfl⟩
      | [] => cases hkey
      | [_] => cases hkey
      | [_, _] => cases hkey
      | _ :: _ :: _ :: _ :: _ => simp at hextra
    rw [hparts] at hformat hsalt hkey h
    obtain rfl : first = legacyFormat := by simpa using hformat
    have hequal := Except.ok.inj h
    rw [timingSafeEqual_eq] at hequal
    exact ⟨⟨second, third, hsalt, hkey⟩, hparts, hequal⟩

/-- Whatever the text is, a password that it accepts gives a key that it holds. -/
theorem holds_of_verify (h : verifyStoredPassword hash password = .ok true) :
    ∃ key, Holds hash key ∧ key.opens password = true := by
  induction hn : hash.length using Nat.strong_induction_on generalizing hash with
  | _ n ih =>
    cases hlegacy : (legacyFormat ++ [':']).isPrefixOf hash with
    | true =>
      rw [verifyStoredPassword_of_legacy hlegacy] at h
      obtain ⟨key, hparts, hopens⟩ := legacy_of_verifyLegacyPassword h
      exact ⟨.legacy key, .legacy hparts, hopens⟩
    | false =>
      cases hbundle : (bundleFormat ++ [':']).isPrefixOf hash with
      | false =>
        rw [verifyStoredPassword_of_derived hlegacy hbundle] at h
        exact holds_of_verifyPassword h
      | true =>
        rw [verifyStoredPassword_of_bundle hlegacy hbundle] at h
        obtain ⟨values, hencoded, h⟩ := except_bind_eq_ok h
        obtain ⟨value, hvalue, h⟩ := exists_of_firstOpened h
        obtain ⟨inner, hinner, h⟩ := except_bind_eq_ok h
        have hshorter : inner.length < hash.length := (length_decodeString hinner).trans_lt
          (length_of_mem_tail (mem_tail_of_encodedHashes hencoded hvalue))
        obtain ⟨key, hholds, hopens⟩ := ih inner.length (hn ▸ hshorter) h rfl
        obtain ⟨hparts, hfew, hmany⟩ := parts_of_encodedHashes hencoded
        exact ⟨key, .bundle hparts hfew hmany hvalue hinner hholds, hopens⟩

/-- A stored password is opened by what gives one of its keys: the text of a hash by the password
that it was made of, a tree of texts by each of theirs, and no text whatever by anything else. -/
theorem stored_password_opened (password : List Char) :
    (∀ salt chosen, verifyStoredPassword (hashPassword salt chosen) password =
      .ok (decide (deriveKey password salt iterations = deriveKey chosen salt iterations))) ∧
    (∀ h : StoredHash, verifyStoredPassword h.text password = .ok (h.opens password)) ∧
    ∀ hash, verifyStoredPassword hash password = .ok true →
      ∃ key, Holds hash key ∧ key.opens password = true := by
  refine ⟨fun salt chosen => ?_, verify_text, fun hash => holds_of_verify⟩
  exact verify_derived ⟨iterations, salt, deriveKey chosen salt iterations, by decide, by decide⟩

end Acceptance

end FlareAuth.Passwords
