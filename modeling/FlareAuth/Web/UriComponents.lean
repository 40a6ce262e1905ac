import FlareAuth.Text.Encodings
import FlareAuth.Web.Hosts

/-!
# Percent-encoded components of addresses

A component is encoded character by character; it is decoded in two passes, first into
characters and bytes, then the bytes into characters. Whatever is not the UTF-8 encoding
of a character is refused.
-/

namespace Web

open Text

section Encoding

def upperHex (n : ℕ) : Char := "0123456789ABCDEF".toList.getD n '0'

def isUnreserved (c : Char) : Bool := c.isAlphanum || "-_.!~*'()".toList.contains c

def percentByte (b : UInt8) : List Char :=
  ['%', upperHex (b.toNat / 16), upperHex (b.toNat % 16)]

def encodeChar (c : Char) : List Char :=
  if isUnreserved c then [c] else (String.utf8EncodeChar c).flatMap percentByte

def encodeURIComponent (s : String) : String := String.ofList (s.toList.flatMap encodeChar)

end Encoding

section Decoding

/-- What a component is made of: characters that stand for themselves, and bytes. -/
inductive Piece where
  | char (c : Char)
  | byte (b : UInt8)

def pieces : List Char → Option (List Piece)
  | [] => some []
  | '%' :: a :: b :: rest => do
    let high ← hexValue a
    let low ← hexValue b
    let more ← pieces rest
    return .byte (UInt8.ofNat (16 * high + low)) :: more
  | '%' :: _ => none
  | c :: rest => (pieces rest).map (.char c :: ·)

/-- The number of bytes of a character, by its first byte. -/
def sequenceLength (b : ℕ) : Option ℕ :=
  if b < 0x80 then some 1
  else if b < 0xC0 then none
  else if b < 0xE0 then some 2
  else if b < 0xF0 then some 3
  else if b < 0xF8 then some 4
  else none

/-- The character whose encoding the bytes are. -/
def character (octets : List UInt8) : Option Char :=
  match decodeFrom .idle octets with
  | [c] => if String.utf8EncodeChar c = octets then some c else none
  | _ => none

/-- Reads pieces while some bytes of a character are there and `missing` others are not. -/
def joinFrom (octets : List UInt8) (missing : ℕ) : List Piece → Option (List Char)
  | [] => if missing = 0 then some [] else none
  | .char c :: rest => if missing = 0 then (joinFrom [] 0 rest).map (c :: ·) else none
  | .byte b :: rest =>
    match if missing = 0 then sequenceLength b.toNat else some missing with
    | none => none
    | some 1 => (character (octets ++ [b])).bind fun c => (joinFrom [] 0 rest).map (c :: ·)
    | some (more + 1) => joinFrom (octets ++ [b]) more rest
    | some 0 => none

def decodeURIComponent (s : String) : Option String :=
  ((pieces s.toList).bind (joinFrom [] 0)).map String.ofList

end Decoding

section RoundTrip

theorem hexValue_upperHex {n : ℕ} (h : n < 16) : hexValue (upperHex n) = some n := by
  have hall : ∀ k : Fin 16, hexValue (upperHex k) = some k.val := by decide
  exact hall ⟨n, h⟩

theorem upperHex_ne_slash {n : ℕ} (h : n < 16) : upperHex n ≠ '/' := by
  have hall : ∀ k : Fin 16, upperHex k ≠ '/' := by decide
  exact hall ⟨n, h⟩

theorem unreserved_ne {c d : Char} (h : isUnreserved c = true) (hd : isUnreserved d = false) :
    c ≠ d := by
  rintro rfl
  rw [h] at hd
  cases hd

theorem slash_not_mem_encodeChar (c : Char) : '/' ∉ encodeChar c := by
  intro hslash
  unfold encodeChar at hslash
  split at hslash
  · rename_i hc
    exact unreserved_ne hc (by decide) (List.mem_singleton.mp hslash).symm
  · obtain ⟨b, _, hb⟩ := List.mem_flatMap.mp hslash
    have hlt : b.toNat < 256 := b.toNat_lt
    simp only [percentByte, List.mem_cons, List.not_mem_nil, or_false] at hb
    rcases hb with hb | hb | hb
    · exact absurd hb (by decide)
    · exact upperHex_ne_slash (by omega) hb.symm
    · exact upperHex_ne_slash (by omega) hb.symm

theorem slash_not_mem_encode (s : String) : '/' ∉ (encodeURIComponent s).toList := by
  rw [encodeURIComponent, String.toList_ofList]
  intro hslash
  obtain ⟨c, _, hc⟩ := List.mem_flatMap.mp hslash
  exact slash_not_mem_encodeChar c hc

theorem encodeChar_ne_nil (c : Char) : encodeChar c ≠ [] := by
  unfold encodeChar
  split
  · exact List.cons_ne_nil _ _
  · rcases utf8EncodeChar_cases c with ⟨_, h⟩ | ⟨_, h⟩ | ⟨_, h⟩ | ⟨_, h⟩ <;> rw [h] <;>
      exact List.cons_ne_nil _ _

theorem encode_ne_nil {s : String} (h : s ≠ "") : (encodeURIComponent s).toList ≠ [] := by
  rw [encodeURIComponent, String.toList_ofList]
  intro hnil
  cases hs : s.toList with
  | nil => exact h (String.toList_eq_nil_iff.mp hs)
  | cons c cs =>
    rw [hs, List.flatMap_cons] at hnil
    exact encodeChar_ne_nil c (List.append_eq_nil_iff.mp hnil).1

theorem pieces_percentByte (b : UInt8) (rest : List Char) :
    pieces (percentByte b ++ rest) = (pieces rest).map (.byte b :: ·) := by
  have hlt : b.toNat < 256 := b.toNat_lt
  have hhigh : hexValue (upperHex (b.toNat / 16)) = some (b.toNat / 16) :=
    hexValue_upperHex (by omega)
  have hlow : hexValue (upperHex (b.toNat % 16)) = some (b.toNat % 16) :=
    hexValue_upperHex (by omega)
  have hvalue : 16 * (b.toNat / 16) + b.toNat % 16 = b.toNat := by omega
  rw [percentByte, List.cons_append, List.cons_append, List.singleton_append, pieces, hhigh, hlow]
  cases hrest : pieces rest with
  | none => rfl
  | some more =>
    change some (Piece.byte (UInt8.ofNat (16 * (b.toNat / 16) + b.toNat % 16)) :: more) = _
    rw [hvalue, UInt8.ofNat_toNat]
    rfl

theorem pieces_bytes (bs : List UInt8) (rest : List Char) :
    pieces (bs.flatMap percentByte ++ rest) = (pieces rest).map (bs.map Piece.byte ++ ·) := by
  induction bs with
  | nil => simp
  | cons b bs ih =>
    rw [List.flatMap_cons, List.append_assoc, pieces_percentByte, ih, Option.map_map]
    rfl

theorem pieces_of_ne {c : Char} (h : c ≠ '%') (rest : List Char) :
    pieces (c :: rest) = (pieces rest).map (.char c :: ·) := by
  rw [pieces]
  · exact fun _ _ _ hc _ => h hc
  · exact h

theorem character_encodeChar (c : Char) : character (String.utf8EncodeChar c) = some c := by
  have hdecoded := decodeFrom_encodeChar c []
  rw [List.append_nil] at hdecoded
  change decodeFrom .idle (String.utf8EncodeChar c) = [c] at hdecoded
  rw [character, hdecoded]
  exact if_pos rfl

theorem sequenceLength_encodeChar (c : Char) : ∃ b bs, String.utf8EncodeChar c = b :: bs ∧
    sequenceLength b.toNat = some (bs.length + 1) := by
  have hc := toNat_cases c
  rcases utf8EncodeChar_cases c with ⟨hsize, hbytes⟩ | ⟨hsize, hbytes⟩ | ⟨hsize, hbytes⟩ |
    ⟨hsize, hbytes⟩
  · refine ⟨_, _, hbytes, ?_⟩
    rw [toNat_byte (by omega), sequenceLength, if_pos (by omega)]
    rfl
  · refine ⟨_, _, hbytes, ?_⟩
    rw [toNat_byte (by omega), sequenceLength, if_neg (by omega), if_neg (by omega),
      if_pos (by omega)]
    rfl
  · refine ⟨_, _, hbytes, ?_⟩
    rw [toNat_byte (by omega), sequenceLength, if_neg (by omega), if_neg (by omega),
      if_neg (by omega), if_pos (by omega)]
    rfl
  · refine ⟨_, _, hbytes, ?_⟩
    rw [toNat_byte (by omega), sequenceLength, if_neg (by omega), if_neg (by omega),
      if_neg (by omega), if_neg (by omega), if_pos (by omega)]
    rfl

theorem joinFrom_bytes (octets : List UInt8) (b : UInt8) (bs : List UInt8) (rest : List Piece) :
    joinFrom octets (bs.length + 1) ((b :: bs).map .byte ++ rest) =
      (character (octets ++ b :: bs)).bind fun c => (joinFrom [] 0 rest).map (c :: ·) := by
  induction bs generalizing octets b with
  | nil => rfl
  | cons b' bs ih =>
    have hrest := ih (octets ++ [b]) b'
    rw [List.append_assoc] at hrest
    exact hrest

theorem joinFrom_encodeChar (c : Char) (rest : List Piece) :
    joinFrom [] 0 ((String.utf8EncodeChar c).map .byte ++ rest) =
      (joinFrom [] 0 rest).map (c :: ·) := by
  obtain ⟨b, bs, hbytes, hlength⟩ := sequenceLength_encodeChar c
  have hcharacter : character (b :: bs) = some c := by
    rw [← hbytes]
    exact character_encodeChar c
  rw [hbytes, List.map_cons, List.cons_append, joinFrom, if_pos rfl, hlength]
  cases bs with
  | nil =>
    change (character [b]).bind _ = _
    rw [hcharacter]
    rfl
  | cons b' bs =>
    change joinFrom [b] (bs.length + 1) ((b' :: bs).map .byte ++ rest) = _
    rw [joinFrom_bytes, List.singleton_append, hcharacter]
    rfl

/-- The pieces of an encoded character join to that character. -/
theorem pieces_encodeChar (c : Char) (rest : List Char) :
    (pieces (encodeChar c ++ rest)).bind (joinFrom [] 0) =
      ((pieces rest).bind (joinFrom [] 0)).map (c :: ·) := by
  unfold encodeChar
  split
  · rename_i hc
    rw [List.singleton_append, pieces_of_ne (unreserved_ne hc (by decide))]
    cases pieces rest <;> rfl
  · rw [pieces_bytes]
    cases pieces rest with
    | none => rfl
    | some more => exact joinFrom_encodeChar c more

theorem pieces_encode (cs : List Char) :
    (pieces (cs.flatMap encodeChar)).bind (joinFrom [] 0) = some cs := by
  induction cs with
  | nil => rfl
  | cons c cs ih => rw [List.flatMap_cons, pieces_encodeChar, ih, Option.map_some]

theorem decode_encode (s : String) : decodeURIComponent (encodeURIComponent s) = some s := by
  rw [decodeURIComponent, encodeURIComponent, String.toList_ofList, pieces_encode, Option.map_some,
    String.ofList_toList]

end RoundTrip

end Web
