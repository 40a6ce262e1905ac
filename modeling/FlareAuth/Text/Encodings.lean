import Mathlib.Data.List.Basic
import Mathlib.Tactic.Common
import Mathlib.Tactic.IntervalCases

/-!
# UTF-16 and UTF-8

A JavaScript string is a list of UTF-16 code units. It is encoded as UTF-8 by way of
its scalar values, an unpaired surrogate counting as the replacement character. The
decoder of UTF-8 answers every sequence of bytes and drops a leading byte order mark.
-/

namespace Text

abbrev JsString := List UInt16

def replacement : Char := '\uFFFD'

def byteOrderMark : Char := '\uFEFF'

section Utf16

def IsLead (u : UInt16) : Prop := 0xD800 ≤ u.toNat ∧ u.toNat < 0xDC00

def IsTrail (u : UInt16) : Prop := 0xDC00 ≤ u.toNat ∧ u.toNat < 0xE000

instance (u : UInt16) : Decidable (IsLead u) := inferInstanceAs (Decidable (_ ∧ _))

instance (u : UInt16) : Decidable (IsTrail u) := inferInstanceAs (Decidable (_ ∧ _))

def units (c : Char) : List UInt16 :=
  if c.toNat < 0x10000 then [UInt16.ofNat c.toNat]
  else [UInt16.ofNat (0xD800 + (c.toNat - 0x10000) / 0x400),
    UInt16.ofNat (0xDC00 + (c.toNat - 0x10000) % 0x400)]

def utf16 (cs : List Char) : JsString := cs.flatMap units

/-- The scalar value of a code unit outside a surrogate pair. -/
def unpaired (u : UInt16) : Char := if IsLead u ∨ IsTrail u then replacement else Char.ofNat u.toNat

def scalars : JsString → List Char
  | [] => []
  | [u] => [unpaired u]
  | u :: v :: rest =>
    if IsLead u ∧ IsTrail v then
      Char.ofNat (0x10000 + (u.toNat - 0xD800) * 0x400 + (v.toNat - 0xDC00)) :: scalars rest
    else unpaired u :: scalars (v :: rest)

theorem toNat_unit {n : ℕ} (h : n < 0x10000) : (UInt16.ofNat n).toNat = n :=
  UInt16.toNat_ofNat_of_lt' h

theorem toNat_cases (c : Char) :
    c.toNat < 0xD800 ∨ 0xDFFF < c.toNat ∧ c.toNat < 0x110000 := c.valid

theorem scalars_of_not_lead {u : UInt16} (h : ¬IsLead u) (rest : JsString) :
    scalars (u :: rest) = unpaired u :: scalars rest := by
  cases rest with
  | nil => rfl
  | cons v rest => rw [scalars, if_neg fun hpair => h hpair.1]

theorem scalars_units (c : Char) (rest : JsString) :
    scalars (units c ++ rest) = c :: scalars rest := by
  have hc := toNat_cases c
  by_cases hsmall : c.toNat < 0x10000
  · have hunit : (UInt16.ofNat c.toNat).toNat = c.toNat := toNat_unit hsmall
    have hlead : ¬IsLead (UInt16.ofNat c.toNat) := by
      rw [IsLead, hunit]
      omega
    have htrail : ¬IsTrail (UInt16.ofNat c.toNat) := by
      rw [IsTrail, hunit]
      omega
    rw [units, if_pos hsmall, List.singleton_append, scalars_of_not_lead hlead, unpaired,
      if_neg (not_or.mpr ⟨hlead, htrail⟩), hunit, Char.ofNat_toNat]
  · have hhigh : (UInt16.ofNat (0xD800 + (c.toNat - 0x10000) / 0x400)).toNat =
        0xD800 + (c.toNat - 0x10000) / 0x400 := toNat_unit (by omega)
    have hlow : (UInt16.ofNat (0xDC00 + (c.toNat - 0x10000) % 0x400)).toNat =
        0xDC00 + (c.toNat - 0x10000) % 0x400 := toNat_unit (by omega)
    have hpair : IsLead (UInt16.ofNat (0xD800 + (c.toNat - 0x10000) / 0x400)) ∧
        IsTrail (UInt16.ofNat (0xDC00 + (c.toNat - 0x10000) % 0x400)) := by
      rw [IsLead, IsTrail, hhigh, hlow]
      omega
    have hvalue : 0x10000 + (0xD800 + (c.toNat - 0x10000) / 0x400 - 0xD800) * 0x400 +
        (0xDC00 + (c.toNat - 0x10000) % 0x400 - 0xDC00) = c.toNat := by
      omega
    rw [units, if_neg hsmall, List.cons_append, List.singleton_append, scalars, if_pos hpair, hhigh,
      hlow, hvalue, Char.ofNat_toNat]

@[simp] theorem scalars_utf16 (cs : List Char) : scalars (utf16 cs) = cs := by
  induction cs with
  | nil => rfl
  | cons c cs ih =>
    rw [utf16, List.flatMap_cons, scalars_units]
    exact congrArg (c :: ·) ih

theorem utf16_injective : Function.Injective utf16 := fun cs ds h => by
  rw [← scalars_utf16 cs, h, scalars_utf16]

end Utf16

section Utf8

def utf8 (cs : List Char) : List UInt8 := cs.flatMap String.utf8EncodeChar

/-- A character of which some bytes have been read, or none. -/
structure Partial where
  codePoint : ℕ
  needed : ℕ
  lower : ℕ
  upper : ℕ
  deriving DecidableEq

def Partial.idle : Partial := ⟨0, 0, 0x80, 0xBF⟩

/-- What the first byte of a character gives. -/
def firstByte (b : ℕ) : List Char × Partial :=
  if b ≤ 0x7F then ([Char.ofNat b], .idle)
  else if 0xC2 ≤ b ∧ b ≤ 0xDF then ([], ⟨b % 0x20, 1, 0x80, 0xBF⟩)
  else if 0xE0 ≤ b ∧ b ≤ 0xEF then
    ([], ⟨b % 0x10, 2, if b = 0xE0 then 0xA0 else 0x80, if b = 0xED then 0x9F else 0xBF⟩)
  else if 0xF0 ≤ b ∧ b ≤ 0xF4 then
    ([], ⟨b % 0x8, 3, if b = 0xF0 then 0x90 else 0x80, if b = 0xF4 then 0x8F else 0xBF⟩)
  else ([replacement], .idle)

/-- A byte that cannot continue a character ends it, and is read as a first byte. -/
def nextByte (p : Partial) (b : ℕ) : List Char × Partial :=
  if p.needed = 0 then firstByte b
  else if b < p.lower ∨ p.upper < b then (replacement :: (firstByte b).1, (firstByte b).2)
  else if p.needed = 1 then ([Char.ofNat (p.codePoint * 0x40 + b % 0x40)], .idle)
  else ([], ⟨p.codePoint * 0x40 + b % 0x40, p.needed - 1, 0x80, 0xBF⟩)

def decodeFrom (p : Partial) : List UInt8 → List Char
  | [] => if p.needed = 0 then [] else [replacement]
  | b :: bs => (nextByte p b.toNat).1 ++ decodeFrom (nextByte p b.toNat).2 bs

/-- Only the first scalar value is looked at for a byte order mark. -/
def dropMark : List Char → List Char
  | [] => []
  | c :: cs => if c = byteOrderMark then cs else c :: cs

def textEncode (s : JsString) : List UInt8 := utf8 (scalars s)

def textDecode (bytes : List UInt8) : JsString := utf16 (dropMark (decodeFrom .idle bytes))

theorem toNat_byte {n : ℕ} (h : n < 0x100) : (UInt8.ofNat n).toNat = n :=
  UInt8.toNat_ofNat_of_lt' h

section Bytes

variable {codePoint lower upper n : ℕ}

theorem decodeFrom_first {out : List Char} {p : Partial} (hbyte : n < 0x100)
    (h : firstByte n = (out, p)) (bs : List UInt8) :
    decodeFrom .idle (UInt8.ofNat n :: bs) = out ++ decodeFrom p bs := by
  have hnext : nextByte .idle n = (out, p) := h
  rw [decodeFrom, toNat_byte hbyte, hnext]

theorem decodeFrom_last (hbyte : n < 0x100) (hlower : lower ≤ n) (hupper : n ≤ upper)
    (bs : List UInt8) :
    decodeFrom ⟨codePoint, 1, lower, upper⟩ (UInt8.ofNat n :: bs) =
      Char.ofNat (codePoint * 0x40 + n % 0x40) :: decodeFrom .idle bs := by
  have hwithin : ¬(n < lower ∨ upper < n) := by omega
  have hnext : nextByte ⟨codePoint, 1, lower, upper⟩ n =
      ([Char.ofNat (codePoint * 0x40 + n % 0x40)], .idle) := by
    rw [nextByte, if_neg Nat.one_ne_zero, if_neg hwithin, if_pos rfl]
  rw [decodeFrom, toNat_byte hbyte, hnext, List.singleton_append]

theorem decodeFrom_more (needed : ℕ) (hbyte : n < 0x100) (hlower : lower ≤ n) (hupper : n ≤ upper)
    (bs : List UInt8) :
    decodeFrom ⟨codePoint, needed + 2, lower, upper⟩ (UInt8.ofNat n :: bs) =
      decodeFrom ⟨codePoint * 0x40 + n % 0x40, needed + 1, 0x80, 0xBF⟩ bs := by
  have hwithin : ¬(n < lower ∨ upper < n) := by omega
  have hnext : nextByte ⟨codePoint, needed + 2, lower, upper⟩ n =
      ([], ⟨codePoint * 0x40 + n % 0x40, needed + 1, 0x80, 0xBF⟩) := by
    rw [nextByte, if_neg (Nat.succ_ne_zero _), if_neg hwithin,
      if_neg fun h => absurd h (by simp)]
    rfl
  rw [decodeFrom, toNat_byte hbyte, hnext, List.nil_append]

theorem decodeFrom_two (hn : n < 0x20) (hlong : 1 < n) (bs : List UInt8) :
    decodeFrom .idle (UInt8.ofNat (n + 0xC0) :: bs) = decodeFrom ⟨n, 1, 0x80, 0xBF⟩ bs := by
  have hfirst : firstByte (n + 0xC0) = ([], ⟨(n + 0xC0) % 0x20, 1, 0x80, 0xBF⟩) := by
    rw [firstByte, if_neg (by omega), if_pos (by omega)]
  have hvalue : (n + 0xC0) % 0x20 = n := by omega
  rw [decodeFrom_first (by omega) hfirst, hvalue, List.nil_append]

theorem decodeFrom_three (hn : n < 0x10) (bs : List UInt8) :
    decodeFrom .idle (UInt8.ofNat (n + 0xE0) :: bs) =
      decodeFrom ⟨n, 2, if n = 0 then 0xA0 else 0x80, if n = 0xD then 0x9F else 0xBF⟩ bs := by
  have hfirst : firstByte (n + 0xE0) = ([], ⟨n, 2, if n = 0 then 0xA0 else 0x80,
      if n = 0xD then 0x9F else 0xBF⟩) := by
    interval_cases n <;> rfl
  rw [decodeFrom_first (by omega) hfirst, List.nil_append]

theorem decodeFrom_four (hn : n < 0x5) (bs : List UInt8) :
    decodeFrom .idle (UInt8.ofNat (n + 0xF0) :: bs) =
      decodeFrom ⟨n, 3, if n = 0 then 0x90 else 0x80, if n = 0x4 then 0x8F else 0xBF⟩ bs := by
  have hfirst : firstByte (n + 0xF0) = ([], ⟨n, 3, if n = 0 then 0x90 else 0x80,
      if n = 0x4 then 0x8F else 0xBF⟩) := by
    interval_cases n <;> rfl
  rw [decodeFrom_first (by omega) hfirst, List.nil_append]

end Bytes

/-- One case for each length of a character's encoding. -/
theorem utf8EncodeChar_cases (c : Char) :
    c.toNat ≤ 0x7F ∧ String.utf8EncodeChar c = [UInt8.ofNat c.toNat] ∨
    (0x7F < c.toNat ∧ c.toNat ≤ 0x7FF) ∧ String.utf8EncodeChar c =
      [UInt8.ofNat (c.toNat / 64 % 0x20 + 0xC0), UInt8.ofNat (c.toNat % 0x40 + 0x80)] ∨
    (0x7FF < c.toNat ∧ c.toNat ≤ 0xFFFF) ∧ String.utf8EncodeChar c =
      [UInt8.ofNat (c.toNat / 4096 % 0x10 + 0xE0), UInt8.ofNat (c.toNat / 64 % 0x40 + 0x80),
        UInt8.ofNat (c.toNat % 0x40 + 0x80)] ∨
    0xFFFF < c.toNat ∧ String.utf8EncodeChar c =
      [UInt8.ofNat (c.toNat / 262144 % 0x08 + 0xF0), UInt8.ofNat (c.toNat / 4096 % 0x40 + 0x80),
        UInt8.ofNat (c.toNat / 64 % 0x40 + 0x80), UInt8.ofNat (c.toNat % 0x40 + 0x80)] := by
  have hval : c.val.toNat = c.toNat := rfl
  unfold String.utf8EncodeChar
  dsimp only
  rw [hval]
  split_ifs with hone htwo hthree
  · exact .inl ⟨hone, rfl⟩
  · exact .inr (.inl ⟨⟨by omega, htwo⟩, rfl⟩)
  · exact .inr (.inr (.inl ⟨⟨by omega, hthree⟩, rfl⟩))
  · exact .inr (.inr (.inr ⟨by omega, rfl⟩))

theorem decodeFrom_encodeChar (c : Char) (rest : List UInt8) :
    decodeFrom .idle (String.utf8EncodeChar c ++ rest) = c :: decodeFrom .idle rest := by
  have hc := toNat_cases c
  rcases utf8EncodeChar_cases c with ⟨hsize, hbytes⟩ | ⟨hsize, hbytes⟩ | ⟨hsize, hbytes⟩ |
    ⟨hsize, hbytes⟩
  · have hfirst : firstByte c.toNat = ([c], .idle) := by
      rw [firstByte, if_pos hsize, Char.ofNat_toNat]
    rw [hbytes]
    exact decodeFrom_first (by omega) hfirst rest
  · have hvalue : c.toNat / 64 % 0x20 * 0x40 + (c.toNat % 0x40 + 0x80) % 0x40 = c.toNat := by omega
    rw [hbytes, List.cons_append, List.singleton_append,
      decodeFrom_two (by omega) (by omega),
      decodeFrom_last (by omega) (by omega) (by omega), hvalue, Char.ofNat_toNat]
  · have hvalue : (c.toNat / 4096 % 0x10 * 0x40 + (c.toNat / 64 % 0x40 + 0x80) % 0x40) * 0x40 +
        (c.toNat % 0x40 + 0x80) % 0x40 = c.toNat := by omega
    -- an overlong form would start below, a surrogate above the bounds of the second byte
    have hlower : (if c.toNat / 4096 % 0x10 = 0 then 0xA0 else 0x80) ≤
        c.toNat / 64 % 0x40 + 0x80 := by split_ifs <;> omega
    have hupper : c.toNat / 64 % 0x40 + 0x80 ≤
        (if c.toNat / 4096 % 0x10 = 0xD then 0x9F else 0xBF) := by split_ifs <;> omega
    rw [hbytes, List.cons_append, List.cons_append, List.singleton_append,
      decodeFrom_three (by omega), decodeFrom_more 0 (by omega) hlower hupper,
      decodeFrom_last (by omega) (by omega) (by omega), hvalue, Char.ofNat_toNat]
  · have hvalue : ((c.toNat / 262144 % 0x08 * 0x40 + (c.toNat / 4096 % 0x40 + 0x80) % 0x40) * 0x40 +
        (c.toNat / 64 % 0x40 + 0x80) % 0x40) * 0x40 + (c.toNat % 0x40 + 0x80) % 0x40 =
          c.toNat := by omega
    have hlower : (if c.toNat / 262144 % 0x08 = 0 then 0x90 else 0x80) ≤
        c.toNat / 4096 % 0x40 + 0x80 := by split_ifs <;> omega
    have hupper : c.toNat / 4096 % 0x40 + 0x80 ≤
        (if c.toNat / 262144 % 0x08 = 0x4 then 0x8F else 0xBF) := by split_ifs <;> omega
    rw [hbytes, List.cons_append, List.cons_append, List.cons_append, List.singleton_append,
      decodeFrom_four (by omega), decodeFrom_more 1 (by omega) hlower hupper,
      decodeFrom_more 0 (by omega) (by omega) (by omega),
      decodeFrom_last (by omega) (by omega) (by omega), hvalue, Char.ofNat_toNat]

@[simp] theorem decodeFrom_utf8 (cs : List Char) : decodeFrom .idle (utf8 cs) = cs := by
  induction cs with
  | nil => rfl
  | cons c cs ih =>
    rw [utf8, List.flatMap_cons, decodeFrom_encodeChar]
    exact congrArg (c :: ·) ih

theorem utf8_injective : Function.Injective utf8 := fun cs ds h => by
  rw [← decodeFrom_utf8 cs, h, decodeFrom_utf8]

/-- Two strings have one encoding when they differ in unpaired surrogates only. -/
theorem textEncode_eq_iff {s t : JsString} : textEncode s = textEncode t ↔ scalars s = scalars t :=
  utf8_injective.eq_iff

theorem dropMark_eq_self_iff {cs : List Char} :
    dropMark cs = cs ↔ cs.head? ≠ some byteOrderMark := by
  cases cs with
  | nil => simp [dropMark]
  | cons c cs =>
    by_cases hc : c = byteOrderMark
    · simp [dropMark, hc]
    · simp [dropMark, hc]

/-- A text is read back from its encoding unless it begins with a byte order mark. -/
theorem textDecode_textEncode_iff (cs : List Char) :
    textDecode (textEncode (utf16 cs)) = utf16 cs ↔ cs.head? ≠ some byteOrderMark := by
  rw [textDecode, textEncode, scalars_utf16, decodeFrom_utf8, utf16_injective.eq_iff,
    dropMark_eq_self_iff]

/-- A character that is waited for when bytes run out, or fail to continue it, is one more. -/
def Partial.pending (p : Partial) : ℕ := if p.needed = 0 then 0 else 1

theorem length_firstByte (b : ℕ) : (firstByte b).1.length + (firstByte b).2.pending ≤ 1 := by
  unfold firstByte
  split
  · exact le_rfl
  · split
    · exact le_rfl
    · split
      · exact le_rfl
      · split
        · exact le_rfl
        · exact le_rfl

theorem length_nextByte (p : Partial) (b : ℕ) :
    (nextByte p b).1.length + (nextByte p b).2.pending ≤ 1 + p.pending := by
  have hfirst := length_firstByte b
  unfold nextByte
  split
  · exact hfirst.trans (Nat.le_add_right _ _)
  · rename_i hneeded
    have hpending : p.pending = 1 := if_neg hneeded
    rw [hpending]
    split
    · simp only [List.length_cons]
      omega
    · split
      · exact Nat.le_succ 1
      · simp only [List.length_nil, Partial.pending]
        split <;> omega

/-- A sequence of bytes has no more characters than bytes. -/
theorem length_decodeFrom (p : Partial) (bytes : List UInt8) :
    (decodeFrom p bytes).length ≤ bytes.length + p.pending := by
  induction bytes generalizing p with
  | nil =>
    unfold decodeFrom Partial.pending
    split <;> simp
  | cons b bytes ih =>
    have hnext := length_nextByte p b.toNat
    have hrest := ih (nextByte p b.toNat).2
    rw [decodeFrom, List.length_append, List.length_cons]
    omega

theorem length_dropMark (cs : List Char) : (dropMark cs).length ≤ cs.length := by
  cases cs with
  | nil => exact le_rfl
  | cons c cs =>
    by_cases hc : c = byteOrderMark
    · simp [dropMark, hc]
    · simp [dropMark, hc]

theorem length_scalars_textDecode (bytes : List UInt8) :
    (scalars (textDecode bytes)).length ≤ bytes.length := by
  rw [textDecode, scalars_utf16]
  exact (length_dropMark _).trans (length_decodeFrom .idle bytes)

end Utf8

end Text
