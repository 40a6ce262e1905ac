import FlareAuth.Failure
import FlareAuth.Text.Base64
import FlareAuth.Text.Encodings

/-!
# Sealed secrets

A sealed secret is the text `v1.`, the nonce and the ciphertext, separated by dots. It
opens in the context that it was sealed for, and the decoder of texts drops a leading
byte order mark, so a secret that begins with one does not come back.
-/

namespace FlareAuth.SecretEnvelopes

open Text

/-- AES-GCM under one key: nonce, additional data, data. -/
class AesGcm where
  encrypt : List UInt8 → List UInt8 → List UInt8 → List UInt8
  decrypt : List UInt8 → List UInt8 → List UInt8 → Option (List UInt8)
  encrypt_ne_nil : ∀ iv additionalData data, encrypt iv additionalData data ≠ []
  decrypt_encrypt : ∀ iv additionalData data,
    decrypt iv additionalData (encrypt iv additionalData data) = some data
  decrypt_other : ∀ iv iv' additionalData additionalData' data,
    (iv', additionalData') ≠ (iv, additionalData) →
      decrypt iv' additionalData' (encrypt iv additionalData data) = none

/-- The parts of a text between its dots. -/
def parts : List Char → List (List Char)
  | [] => [[]]
  | c :: cs =>
    if c = '.' then [] :: parts cs
    else
      match parts cs with
      | [] => [[c]]
      | w :: ws => (c :: w) :: ws

theorem parts_of_not_mem {w : List Char} (h : '.' ∉ w) : parts w = [w] := by
  induction w with
  | nil => rfl
  | cons c cs ih =>
    rw [List.mem_cons, not_or] at h
    obtain ⟨hc, hcs⟩ := h
    rw [parts, if_neg (Ne.symm hc), ih hcs]

theorem parts_append {w : List Char} (h : '.' ∉ w) (rest : List Char) :
    parts (w ++ '.' :: rest) = w :: parts rest := by
  induction w with
  | nil => rw [List.nil_append, parts, if_pos rfl]
  | cons c cs ih =>
    rw [List.mem_cons, not_or] at h
    obtain ⟨hc, hcs⟩ := h
    rw [List.cons_append, parts, if_neg (Ne.symm hc), ih hcs]

section Cipher

variable [AesGcm]

def isSealed (value : String) : Bool := "v1.".toList.isPrefixOf value.toList

/-- The text of an envelope is ASCII, whatever strings it is made from. -/
def «seal» (iv : Vector UInt8 12) (plaintext context : JsString) : String :=
  "v1." ++ base64Url iv.toList ++ "." ++
    base64Url (AesGcm.encrypt iv.toList (textEncode context) (textEncode plaintext))

def invalidEnvelope : Failure := .error "Encrypted secret envelope is invalid."

/-- Whatever follows an empty fourth part is not looked at. -/
def «open» (envelope : String) (context : JsString) : Except Failure JsString :=
  match parts envelope.toList with
  | version :: encodedIv :: encodedCiphertext :: extra =>
    if version = "v1".toList ∧ encodedIv ≠ [] ∧ encodedCiphertext ≠ [] ∧ extra.headD [] = [] then
      match fromBase64Url encodedIv, fromBase64Url encodedCiphertext with
      | some iv, some ciphertext =>
        match AesGcm.decrypt iv (textEncode context) ciphertext with
        | some plaintext => .ok (textDecode plaintext)
        | none => .error (.error "The operation failed for an operation-specific reason")
      | _, _ => .error (.error "The string to be decoded is not correctly encoded.")
    else .error invalidEnvelope
  | _ => .error invalidEnvelope

theorem isSealed_seal (iv : Vector UInt8 12) (plaintext context : JsString) :
    isSealed («seal» iv plaintext context) = true := by
  simp [isSealed, «seal»]

omit [AesGcm] in
theorem vector_ne_nil (iv : Vector UInt8 12) : iv.toList ≠ [] := by
  intro hnil
  have hlength := iv.length_toList
  rw [hnil] at hlength
  exact absurd hlength (by decide)

/-- An envelope is taken apart into what it was made from. -/
theorem open_seal_eq (iv : Vector UInt8 12) (plaintext context other : JsString) :
    «open» («seal» iv plaintext context) other =
      match AesGcm.decrypt iv.toList (textEncode other)
          (AesGcm.encrypt iv.toList (textEncode context) (textEncode plaintext)) with
      | some plaintext => .ok (textDecode plaintext)
      | none => .error (.error "The operation failed for an operation-specific reason") := by
  have hne := AesGcm.encrypt_ne_nil iv.toList (textEncode context) (textEncode plaintext)
  have hlist : («seal» iv plaintext context).toList =
      "v1".toList ++ '.' :: ((base64Url iv.toList).toList ++ '.' ::
        (base64Url (AesGcm.encrypt iv.toList (textEncode context)
          (textEncode plaintext))).toList) := by
    simp [«seal»]
  have hparts : parts («seal» iv plaintext context).toList = ["v1".toList,
      (base64Url iv.toList).toList, (base64Url (AesGcm.encrypt iv.toList (textEncode context)
        (textEncode plaintext))).toList] := by
    rw [hlist, parts_append (by decide), parts_append (dot_not_mem_base64Url _),
      parts_of_not_mem (dot_not_mem_base64Url _)]
  rw [«open», hparts]
  dsimp only
  rw [if_pos ⟨rfl, base64Url_ne_nil (vector_ne_nil iv), base64Url_ne_nil hne, rfl⟩,
    fromBase64Url_base64Url, fromBase64Url_base64Url]

theorem open_seal (iv : Vector UInt8 12) (plaintext context : JsString) :
    «open» («seal» iv plaintext context) context =
      .ok (textDecode (textEncode plaintext)) := by
  rw [open_seal_eq, AesGcm.decrypt_encrypt]

theorem open_seal_of_eq {context other : JsString} (h : scalars other = scalars context)
    (iv : Vector UInt8 12) (plaintext : JsString) :
    «open» («seal» iv plaintext context) other = .ok (textDecode (textEncode plaintext)) := by
  rw [open_seal_eq, textEncode_eq_iff.mpr h, AesGcm.decrypt_encrypt]

theorem open_seal_of_ne {context other : JsString} (h : scalars other ≠ scalars context)
    (iv : Vector UInt8 12) (plaintext : JsString) :
    ∃ e, «open» («seal» iv plaintext context) other = .error e := by
  have hdata : (iv.toList, textEncode other) ≠ (iv.toList, textEncode context) := by
    intro hsame
    exact h (textEncode_eq_iff.mp (Prod.ext_iff.mp hsame).2)
  rw [open_seal_eq, AesGcm.decrypt_other _ _ _ _ _ hdata]
  exact ⟨_, rfl⟩

/-- `seal` and `open` for texts without unpaired surrogates, such as the columns of a table. -/
def sealText (iv : Vector UInt8 12) (plaintext context : String) : String :=
  «seal» iv (utf16 plaintext.toList) (utf16 context.toList)

def openText (envelope context : String) : Except Failure String :=
  («open» envelope (utf16 context.toList)).map fun s => String.ofList (scalars s)

/-- The decoder gives the text back whole. -/
def Unmarked (text : String) : Prop := text.toList.head? ≠ some byteOrderMark

instance (text : String) : Decidable (Unmarked text) := inferInstanceAs (Decidable (_ ≠ _))

theorem openText_sealText {plaintext : String} (h : Unmarked plaintext) (iv : Vector UInt8 12)
    (context : String) : openText (sealText iv plaintext context) context = .ok plaintext := by
  rw [openText, sealText, open_seal, (textDecode_textEncode_iff plaintext.toList).mpr h]
  change Except.ok (String.ofList (scalars (utf16 plaintext.toList))) = .ok plaintext
  rw [scalars_utf16, String.ofList_toList]

/-- What the codec owes to a text, a nonce and two contexts. -/
structure RoundTrip (p : String) (iv : Vector UInt8 12) (c d : JsString) : Prop where
  isSealed : SecretEnvelopes.isSealed («seal» iv (utf16 p.toList) c) = true
  opens : «open» («seal» iv (utf16 p.toList) c) c = .ok (utf16 p.toList)
  refuses : d ≠ c → ∃ e, «open» («seal» iv (utf16 p.toList) c) d = .error e

/-- The helpers for base64 invert each other on all bytes. A text comes back from its envelope
exactly when it has no byte order mark at its start, and other contexts are told apart exactly
when they differ in more than their unpaired surrogates. -/
theorem roundTrip_iff :
    (∀ value : List UInt8, fromBase64Url (base64Url value).toList = some value) ∧
    ∀ (p : String) (iv : Vector UInt8 12) (c d : JsString),
      RoundTrip p iv c d ↔
        Unmarked p ∧ (d ≠ c → scalars d ≠ scalars c) := by
  refine ⟨fromBase64Url_base64Url, fun p iv c d => ⟨fun h => ⟨?_, ?_⟩, fun h => ⟨?_, ?_, ?_⟩⟩⟩
  · have hopens := h.opens
    rw [open_seal] at hopens
    exact (textDecode_textEncode_iff p.toList).mp (Except.ok.inj hopens)
  · intro hne hsame
    obtain ⟨e, herror⟩ := h.refuses hne
    rw [open_seal_of_eq hsame] at herror
    cases herror
  · exact isSealed_seal iv _ c
  · rw [open_seal, (textDecode_textEncode_iff p.toList).mpr h.1]
  · exact fun hne => open_seal_of_ne (h.2 hne) iv _

end Cipher

namespace Sample

/-- A sequence of bytes whose end can be seen. -/
def marked : List UInt8 → List UInt8
  | [] => [0]
  | b :: bs => 1 :: b :: marked bs

theorem marked_append_inj {bs cs rest rest' : List UInt8}
    (h : marked bs ++ rest = marked cs ++ rest') : bs = cs ∧ rest = rest' := by
  induction bs generalizing cs with
  | nil =>
    cases cs with
    | nil => exact ⟨rfl, (List.cons.inj h).2⟩
    | cons c cs => exact absurd (List.cons.inj h).1 (by decide)
  | cons b bs ih =>
    cases cs with
    | nil => exact absurd (List.cons.inj h).1 (by decide)
    | cons c cs =>
      obtain ⟨hb, hrest⟩ := List.cons.inj (List.cons.inj h).2
      obtain ⟨hbs, hdata⟩ := ih hrest
      exact ⟨by rw [hb, hbs], hdata⟩

def header (iv additionalData : List UInt8) : List UInt8 := marked iv ++ marked additionalData

/-- An ideal cipher: nonce and additional data stand before the data. -/
@[reducible] def ideal : AesGcm where
  encrypt iv additionalData data := header iv additionalData ++ data
  decrypt iv additionalData ciphertext :=
    if header iv additionalData <+: ciphertext then
      some (ciphertext.drop (header iv additionalData).length)
    else none
  encrypt_ne_nil iv additionalData data := by
    cases iv <;> simp [header, marked]
  decrypt_encrypt iv additionalData data := by
    rw [if_pos (List.prefix_append _ _), List.drop_left]
  decrypt_other iv iv' additionalData additionalData' data hother := by
    apply if_neg
    rintro ⟨rest, hrest⟩
    rw [header, header, List.append_assoc, List.append_assoc] at hrest
    obtain ⟨hiv, hdata⟩ := marked_append_inj hrest
    exact hother (by rw [hiv, (marked_append_inj hdata).1])

local instance : AesGcm := ideal

/-- A secret that begins with a byte order mark comes back without it. -/
theorem not_roundTrip : ¬∀ (p : String) (iv : Vector UInt8 12) (c d : JsString),
    RoundTrip p iv c d := by
  intro h
  have hopens := (h "\uFEFFsecret" (Vector.replicate 12 7) [] []).opens
  rw [open_seal] at hopens
  exact absurd (Except.ok.inj hopens) (by decide +kernel)

end Sample

end FlareAuth.SecretEnvelopes
