import Mathlib.Data.List.DropRight
import Mathlib.Tactic.Common
import Mathlib.Tactic.IntervalCases

/-!
# Base64

The digits of `btoa` and `atob`, and the unpadded form that is safe in addresses. Decoding
is forgiving: white space is skipped, and so are missing padding and left-over bits.
-/

namespace Text

def base64Alphabet : List Char :=
  "ABCDEFGHIJKLMNOPQRSTUVWXYZabcdefghijklmnopqrstuvwxyz0123456789+/".toList

def base64Digit (n : ℕ) : Char := base64Alphabet.getD n 'A'

def base64Value (c : Char) : Option ℕ := base64Alphabet.findIdx? (· == c)

def btoa : List UInt8 → List Char
  | [] => []
  | [a] => [base64Digit (a.toNat / 4), base64Digit (a.toNat % 4 * 16), '=', '=']
  | [a, b] =>
    [base64Digit (a.toNat / 4), base64Digit (a.toNat % 4 * 16 + b.toNat / 16),
      base64Digit (b.toNat % 16 * 4), '=']
  | a :: b :: c :: rest =>
    base64Digit (a.toNat / 4) :: base64Digit (a.toNat % 4 * 16 + b.toNat / 16) ::
      base64Digit (b.toNat % 16 * 4 + c.toNat / 64) :: base64Digit (c.toNat % 64) :: btoa rest

/-- The bytes of a sequence of digits; bits that do not fill a byte are dropped. -/
def decodeDigits : List ℕ → List UInt8
  | a :: b :: c :: d :: rest =>
    UInt8.ofNat (a * 4 + b / 16) :: UInt8.ofNat (b % 16 * 16 + c / 4) ::
      UInt8.ofNat (c % 4 * 64 + d) :: decodeDigits rest
  | [a, b, c] => [UInt8.ofNat (a * 4 + b / 16), UInt8.ofNat (b % 16 * 16 + c / 4)]
  | [a, b] => [UInt8.ofNat (a * 4 + b / 16)]
  | _ => []

def isAsciiSpace (c : Char) : Bool := ['\t', '\n', '\x0C', '\r', ' '].contains c

def dropPadding (cs : List Char) : List Char :=
  match cs.reverse with
  | '=' :: '=' :: rest => rest.reverse
  | '=' :: rest => rest.reverse
  | _ => cs

def atob (cs : List Char) : Option (List UInt8) :=
  let text := cs.filter fun c => !isAsciiSpace c
  let text := if text.length % 4 = 0 then dropPadding text else text
  if text.length % 4 = 1 then none else (text.mapM base64Value).map decodeDigits

def urlChar (c : Char) : Char := if c = '+' then '-' else if c = '/' then '_' else c

def base64Char (c : Char) : Char := if c = '-' then '+' else if c = '_' then '/' else c

def base64Url (value : List UInt8) : String :=
  String.ofList (((btoa value).map urlChar).rdropWhile (· = '='))

def fromBase64Url (value : List Char) : Option (List UInt8) :=
  let base64 := value.map base64Char
  atob (base64 ++ List.replicate ((base64.length + 3) / 4 * 4 - base64.length) '=')

section Digits

variable {n : ℕ}

/-- What the digits of the two alphabets are, one by one. -/
theorem digit_table : ∀ k : Fin 64, base64Value (base64Digit k) = some k.val ∧
    base64Char (urlChar (base64Digit k)) = base64Digit k ∧
    (isAsciiSpace (base64Digit k) = false ∧ base64Digit k ≠ '=') ∧
    urlChar (base64Digit k) ≠ '=' ∧ urlChar (base64Digit k) ≠ '.' ∧
    urlChar (base64Digit k) ≠ ':' := by
  decide +kernel

theorem base64Value_digit (h : n < 64) : base64Value (base64Digit n) = some n :=
  (digit_table ⟨n, h⟩).1

theorem base64Char_urlChar (h : n < 64) :
    base64Char (urlChar (base64Digit n)) = base64Digit n :=
  (digit_table ⟨n, h⟩).2.1

theorem digit_plain (h : n < 64) :
    isAsciiSpace (base64Digit n) = false ∧ base64Digit n ≠ '=' :=
  (digit_table ⟨n, h⟩).2.2.1

theorem urlChar_digit_plain (h : n < 64) : urlChar (base64Digit n) ≠ '=' ∧
    urlChar (base64Digit n) ≠ '.' ∧ urlChar (base64Digit n) ≠ ':' :=
  (digit_table ⟨n, h⟩).2.2.2

end Digits

/-- The digits of a sequence of bytes, without padding. -/
def digits : List UInt8 → List ℕ
  | [] => []
  | [a] => [a.toNat / 4, a.toNat % 4 * 16]
  | [a, b] => [a.toNat / 4, a.toNat % 4 * 16 + b.toNat / 16, b.toNat % 16 * 4]
  | a :: b :: c :: rest =>
    a.toNat / 4 :: (a.toNat % 4 * 16 + b.toNat / 16) :: (b.toNat % 16 * 4 + c.toNat / 64) ::
      c.toNat % 64 :: digits rest

theorem digits_lt (value : List UInt8) : ∀ n ∈ digits value, n < 64 := by
  induction value using digits.induct with
  | case1 => simp [digits]
  | case2 a =>
    have ha : a.toNat < 256 := a.toNat_lt
    intro n hn
    simp only [digits, List.mem_cons, List.not_mem_nil, or_false] at hn
    omega
  | case3 a b =>
    have ha : a.toNat < 256 := a.toNat_lt
    have hb : b.toNat < 256 := b.toNat_lt
    intro n hn
    simp only [digits, List.mem_cons, List.not_mem_nil, or_false] at hn
    omega
  | case4 a b c rest ih =>
    have ha : a.toNat < 256 := a.toNat_lt
    have hb : b.toNat < 256 := b.toNat_lt
    have hc : c.toNat < 256 := c.toNat_lt
    intro n hn
    simp only [digits, List.mem_cons] at hn
    rcases hn with hn | hn | hn | hn | hn
    · omega
    · omega
    · omega
    · omega
    · exact ih n hn

theorem ofNat_eq {n : ℕ} {a : UInt8} (h : n = a.toNat) : UInt8.ofNat n = a := by
  rw [h, UInt8.ofNat_toNat]

theorem decodeDigits_digits (value : List UInt8) : decodeDigits (digits value) = value := by
  induction value using digits.induct with
  | case1 => rfl
  | case2 a =>
    have ha : a.toNat < 256 := a.toNat_lt
    have hfirst : UInt8.ofNat (a.toNat / 4 * 4 + a.toNat % 4 * 16 / 16) = a := ofNat_eq (by omega)
    rw [digits, decodeDigits, hfirst]
  | case3 a b =>
    have ha : a.toNat < 256 := a.toNat_lt
    have hb : b.toNat < 256 := b.toNat_lt
    have hfirst : UInt8.ofNat (a.toNat / 4 * 4 + (a.toNat % 4 * 16 + b.toNat / 16) / 16) = a :=
      ofNat_eq (by omega)
    have hsecond : UInt8.ofNat ((a.toNat % 4 * 16 + b.toNat / 16) % 16 * 16 +
        b.toNat % 16 * 4 / 4) = b := ofNat_eq (by omega)
    rw [digits, decodeDigits, hfirst, hsecond]
  | case4 a b c rest ih =>
    have ha : a.toNat < 256 := a.toNat_lt
    have hb : b.toNat < 256 := b.toNat_lt
    have hc : c.toNat < 256 := c.toNat_lt
    have hfirst : UInt8.ofNat (a.toNat / 4 * 4 + (a.toNat % 4 * 16 + b.toNat / 16) / 16) = a :=
      ofNat_eq (by omega)
    have hsecond : UInt8.ofNat ((a.toNat % 4 * 16 + b.toNat / 16) % 16 * 16 +
        (b.toNat % 16 * 4 + c.toNat / 64) / 4) = b := ofNat_eq (by omega)
    have hthird : UInt8.ofNat ((b.toNat % 16 * 4 + c.toNat / 64) % 4 * 64 + c.toNat % 64) = c :=
      ofNat_eq (by omega)
    rw [digits, decodeDigits, hfirst, hsecond, hthird, ih]

theorem btoa_eq (value : List UInt8) : ∃ k, k < 3 ∧
    btoa value = (digits value).map base64Digit ++ List.replicate k '=' ∧
      ((digits value).length + k) % 4 = 0 := by
  induction value using digits.induct with
  | case1 => exact ⟨0, by omega, rfl, rfl⟩
  | case2 a => exact ⟨2, by omega, rfl, by simp [digits]⟩
  | case3 a b => exact ⟨1, by omega, rfl, by simp [digits]⟩
  | case4 a b c rest ih =>
    obtain ⟨k, hk, hbtoa, hlength⟩ := ih
    refine ⟨k, hk, ?_, ?_⟩
    · rw [btoa, hbtoa]
      rfl
    · simp only [digits, List.length_cons]
      omega

theorem rdropWhile_append_replicate {p : Char → Bool} {c : Char} (hc : p c = true) (cs : List Char)
    (k : ℕ) : (cs ++ List.replicate k c).rdropWhile p = cs.rdropWhile p := by
  induction k with
  | zero => rw [List.replicate_zero, List.append_nil]
  | succ k ih =>
    rw [List.replicate_succ', ← List.append_assoc, List.rdropWhile_concat_pos _ _ _ hc, ih]

theorem rdropWhile_of_forall {p : Char → Bool} {cs : List Char} (h : ∀ c ∈ cs, p c = false) :
    cs.rdropWhile p = cs := by
  rw [List.rdropWhile_eq_self_iff]
  intro hne
  simp [h _ (List.getLast_mem hne)]

/-- Only the padding is dropped from the text of a sequence of bytes. -/
theorem base64Url_toList (value : List UInt8) :
    (base64Url value).toList = (digits value).map fun n => urlChar (base64Digit n) := by
  obtain ⟨k, _, hbtoa, _⟩ := btoa_eq value
  have hplain : ∀ c ∈ (digits value).map fun n => urlChar (base64Digit n),
      decide (c = '=') = false := by
    intro c hc
    obtain ⟨n, hn, rfl⟩ := List.mem_map.mp hc
    exact decide_eq_false (urlChar_digit_plain (digits_lt value n hn)).1
  rw [base64Url, String.toList_ofList, hbtoa, List.map_append, List.map_map, List.map_replicate]
  exact (rdropWhile_append_replicate (by decide) _ k).trans (rdropWhile_of_forall hplain)

theorem dropPadding_append {cs : List Char} {k : ℕ} (h : ∀ c ∈ cs, c ≠ '=') (hk : k < 3) :
    dropPadding (cs ++ List.replicate k '=') = cs := by
  have hreverse : ∀ c ∈ cs.reverse, c ≠ '=' := fun c hc => h c (List.mem_reverse.mp hc)
  unfold dropPadding
  rw [List.reverse_append, List.reverse_replicate]
  interval_cases k
  · rw [List.replicate_zero, List.nil_append, List.append_nil]
    split
    · rename_i hrest
      exact absurd rfl (hreverse '=' (hrest ▸ List.mem_cons_self))
    · rename_i hrest
      exact absurd rfl (hreverse '=' (hrest ▸ List.mem_cons_self))
    · rfl
  · rw [List.replicate_one, List.singleton_append]
    split
    · rename_i hrest
      have hsecond : cs.reverse = '=' :: _ := (List.cons.inj hrest).2
      exact absurd rfl (hreverse '=' (hsecond ▸ List.mem_cons_self))
    · rename_i hrest
      rw [← (List.cons.inj hrest).2, List.reverse_reverse]
    · rename_i hother
      exact absurd rfl (hother cs.reverse)
  · change (cs.reverse).reverse = cs
    exact List.reverse_reverse cs

theorem mapM_base64Value {ns : List ℕ} (h : ∀ n ∈ ns, n < 64) :
    (ns.map base64Digit).mapM base64Value = some ns := by
  induction ns with
  | nil => rfl
  | cons n ns ih =>
    have hn := base64Value_digit (h n List.mem_cons_self)
    have hns := ih fun m hm => h m (List.mem_cons_of_mem _ hm)
    rw [List.map_cons, List.mapM_cons, hn, hns]
    rfl

/-- Bytes are read back from their text, whatever their number. -/
theorem fromBase64Url_base64Url (value : List UInt8) :
    fromBase64Url (base64Url value).toList = some value := by
  obtain ⟨k, hk, _, hlength⟩ := btoa_eq value
  have hlt := digits_lt value
  have htext : (base64Url value).toList.map base64Char = (digits value).map base64Digit := by
    rw [base64Url_toList, List.map_map]
    exact List.map_congr_left fun n hn => base64Char_urlChar (hlt n hn)
  have hpadding : (((digits value).map base64Digit).length + 3) / 4 * 4 -
      ((digits value).map base64Digit).length = k := by
    rw [List.length_map]
    omega
  have hplain : ∀ c ∈ (digits value).map base64Digit, isAsciiSpace c = false ∧ c ≠ '=' := by
    intro c hc
    obtain ⟨n, hn, rfl⟩ := List.mem_map.mp hc
    exact digit_plain (hlt n hn)
  have hspaces : ((digits value).map base64Digit ++ List.replicate k '=').filter
      (fun c => !isAsciiSpace c) = (digits value).map base64Digit ++ List.replicate k '=' := by
    rw [List.filter_eq_self]
    intro c hc
    rcases List.mem_append.mp hc with hc | hc
    · rw [(hplain c hc).1]
      rfl
    · rw [(List.mem_replicate.mp hc).2]
      decide
  have htotal : ((digits value).map base64Digit ++ List.replicate k '=').length % 4 = 0 := by
    rw [List.length_append, List.length_map, List.length_replicate]
    exact hlength
  have hdigits : ¬((digits value).map base64Digit).length % 4 = 1 := by
    rw [List.length_map]
    omega
  rw [fromBase64Url, htext, hpadding, atob, hspaces, if_pos htotal,
    dropPadding_append (fun c hc => (hplain c hc).2) hk, if_neg hdigits, mapM_base64Value hlt,
      Option.map_some, decodeDigits_digits]

theorem dot_not_mem_base64Url (value : List UInt8) : '.' ∉ (base64Url value).toList := by
  rw [base64Url_toList]
  intro hdot
  obtain ⟨n, hn, hdigit⟩ := List.mem_map.mp hdot
  exact (urlChar_digit_plain (digits_lt value n hn)).2.1 hdigit

theorem colon_not_mem_base64Url (value : List UInt8) : ':' ∉ (base64Url value).toList := by
  rw [base64Url_toList]
  intro hcolon
  obtain ⟨n, hn, hdigit⟩ := List.mem_map.mp hcolon
  exact (urlChar_digit_plain (digits_lt value n hn)).2.2 hdigit

theorem base64Url_ne_nil {value : List UInt8} (h : value ≠ []) : (base64Url value).toList ≠ [] := by
  intro hnil
  have hback := fromBase64Url_base64Url value
  rw [hnil] at hback
  exact h (Option.some.inj hback).symm

section Lengths

theorem length_decodeDigits (ns : List ℕ) : (decodeDigits ns).length ≤ ns.length := by
  induction ns using decodeDigits.induct with
  | case1 a b c d rest ih =>
    simp only [decodeDigits, List.length_cons]
    omega
  | case2 a b c => simp [decodeDigits]
  | case3 a b => simp [decodeDigits]
  | case4 ns h₁ h₂ h₃ =>
    rw [decodeDigits]
    · exact Nat.zero_le _
    · exact h₁
    · exact h₂
    · exact h₃

theorem dropPadding_sublist (cs : List Char) : (dropPadding cs).Sublist cs := by
  unfold dropPadding
  split
  · rename_i rest hreverse
    have hsub : rest.Sublist cs.reverse := by
      rw [hreverse]
      exact (List.sublist_cons_self _ _).trans (List.sublist_cons_self _ _)
    simpa using hsub.reverse
  · rename_i rest _ hreverse
    have hsub : rest.Sublist cs.reverse := by
      rw [hreverse]
      exact List.sublist_cons_self _ _
    simpa using hsub.reverse
  · exact List.Sublist.refl cs

theorem ne_padding_of_mapM {cs : List Char} {ns : List ℕ} (h : cs.mapM base64Value = some ns) :
    ns.length = cs.length ∧ ∀ c ∈ cs, c ≠ '=' := by
  induction cs generalizing ns with
  | nil =>
    cases h
    exact ⟨rfl, fun c hc => nomatch hc⟩
  | cons c cs ih =>
    rw [List.mapM_cons] at h
    obtain ⟨n, hn, h⟩ := Option.bind_eq_some_iff.mp h
    obtain ⟨ms, hms, h⟩ := Option.bind_eq_some_iff.mp h
    obtain rfl : n :: ms = ns := Option.some.inj h
    obtain ⟨hlength, hplain⟩ := ih hms
    refine ⟨by simp [hlength], fun d hd => ?_⟩
    rcases List.mem_cons.mp hd with rfl | hd
    · rintro rfl
      have hnone : base64Value '=' = none := by decide
      rw [hnone] at hn
      cases hn
    · exact hplain d hd

/-- Padding that is added gives no more bytes than there are digits. -/
theorem length_fromBase64Url {value : List Char} {bytes : List UInt8}
    (h : fromBase64Url value = some bytes) : bytes.length ≤ value.length := by
  unfold fromBase64Url atob at h
  dsimp only at h
  generalize hpadded : value.map base64Char ++ List.replicate _ '=' = padded at h
  generalize htext : (if (padded.filter fun c => !isAsciiSpace c).length % 4 = 0 then
    dropPadding (padded.filter fun c => !isAsciiSpace c) else
      padded.filter fun c => !isAsciiSpace c) = text at h
  have hsub : text.Sublist padded := by
    rw [← htext]
    split
    · exact (dropPadding_sublist _).trans List.filter_sublist
    · exact List.filter_sublist
  split at h
  · cases h
  · obtain ⟨ns, hns, rfl⟩ := Option.map_eq_some_iff.mp h
    obtain ⟨hlength, hplain⟩ := ne_padding_of_mapM hns
    have hcount : (text.filter (· ≠ '=')).length ≤ (padded.filter (· ≠ '=')).length :=
      (hsub.filter _).length_le
    rw [List.filter_eq_self.mpr fun c hc => by simpa using hplain c hc, ← hpadded,
      List.filter_append, List.length_append, List.filter_replicate, if_neg (by simp),
      List.length_nil, Nat.add_zero] at hcount
    calc (decodeDigits ns).length ≤ ns.length := length_decodeDigits ns
      _ = text.length := hlength
      _ ≤ ((value.map base64Char).filter (· ≠ '=')).length := hcount
      _ ≤ (value.map base64Char).length := List.length_filter_le _ _
      _ = value.length := List.length_map _

end Lengths

end Text
