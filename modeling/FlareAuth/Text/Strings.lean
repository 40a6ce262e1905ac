import Mathlib.Data.List.Sort
import Mathlib.Tactic.Common

/-!
# Strings as JavaScript orders, joins and splits them

The default sort compares UTF-16 code units, a set of strings lists each of them
at its first occurrence, and a list of words is written with single spaces and
read back at runs of white space.
-/

namespace Text

def codeUnits (s : String) : List ℕ :=
  s.toList.flatMap fun c =>
    if c.toNat < 0x10000 then [c.toNat]
    else [0xD800 + (c.toNat - 0x10000) / 0x400, 0xDC00 + (c.toNat - 0x10000) % 0x400]

def lexLE : List ℕ → List ℕ → Bool
  | [], _ => true
  | _ :: _, [] => false
  | x :: xs, y :: ys => decide (x < y) || (x == y && lexLE xs ys)

def sort (xs : List String) : List String :=
  xs.insertionSort fun x y => lexLE (codeUnits x) (codeUnits y) = true

theorem sort_perm (xs : List String) : (sort xs).Perm xs := List.perm_insertionSort _ xs

@[simp] theorem mem_sort {x : String} {xs : List String} : x ∈ sort xs ↔ x ∈ xs :=
  (sort_perm xs).mem_iff

@[simp] theorem length_sort (xs : List String) : (sort xs).length = xs.length :=
  (sort_perm xs).length_eq

/-- The elements of a set built from the list, in insertion order. -/
def unique (xs : List String) : List String := xs.eraseDups

@[simp] theorem mem_unique {x : String} {xs : List String} : x ∈ unique xs ↔ x ∈ xs :=
  List.mem_eraseDups

theorem nodup_unique (xs : List String) : (unique xs).Nodup := by
  unfold unique
  induction hlength : xs.length using Nat.strong_induction_on generalizing xs with
  | _ n ih =>
    cases xs with
    | nil => exact List.nodup_nil
    | cons x xs =>
      subst hlength
      rw [List.eraseDups_cons, List.nodup_cons]
      have hshorter : (xs.filter fun y => !y == x).length < (x :: xs).length :=
        Nat.lt_succ_of_le (List.length_filter_le _ _)
      exact ⟨fun h => by simp [List.mem_eraseDups] at h, ih _ hshorter _ rfl⟩

/-- Nothing is dropped exactly when nothing is repeated. -/
theorem length_unique_eq_iff {xs : List String} : (unique xs).length = xs.length ↔ xs.Nodup := by
  have hsub : (unique xs).Subperm xs :=
    List.subperm_of_subset (nodup_unique xs) fun x hx => mem_unique.mp hx
  constructor
  · intro hlength
    exact (hsub.perm_of_length_le hlength.ge).nodup_iff.mp (nodup_unique xs)
  · intro hnodup
    have hsub' : xs.Subperm (unique xs) :=
      List.subperm_of_subset hnodup fun x hx => mem_unique.mpr hx
    exact Nat.le_antisymm hsub.length_le hsub'.length_le

/-- The white space of a regular expression's `\s`. -/
def isSpace (c : Char) : Bool :=
  [0x9, 0xA, 0xB, 0xC, 0xD, 0x20, 0xA0, 0x1680, 0x2028, 0x2029, 0x202F, 0x205F, 0x3000,
    0xFEFF].contains c.toNat || (decide (0x2000 ≤ c.toNat) && decide (c.toNat ≤ 0x200A))

def join : List String → String
  | [] => ""
  | [w] => w
  | w :: ws => w ++ " " ++ join ws

/-- Reads words off a text, `word` holding the characters of the current one backwards. -/
def splitFrom : List Char → List Char → List String
  | [], word => if word.isEmpty then [] else [String.ofList word.reverse]
  | c :: cs, word =>
    if isSpace c then
      if word.isEmpty then splitFrom cs [] else String.ofList word.reverse :: splitFrom cs []
    else splitFrom cs (c :: word)

def split (s : String) : List String := splitFrom s.toList []

def IsWord (w : String) : Prop := w.toList ≠ [] ∧ ∀ c ∈ w.toList, isSpace c = false

instance (w : String) : Decidable (IsWord w) := inferInstanceAs (Decidable (_ ∧ _))

theorem splitFrom_append {cs : List Char} (h : ∀ c ∈ cs, isSpace c = false)
    (rest word : List Char) :
    splitFrom (cs ++ rest) word = splitFrom rest (cs.reverse ++ word) := by
  induction cs generalizing word with
  | nil => rfl
  | cons c cs ih =>
    have hc : isSpace c = false := h c List.mem_cons_self
    have hcs := ih (fun d hd => h d (List.mem_cons_of_mem _ hd)) (c :: word)
    simpa [splitFrom, hc] using hcs

theorem split_word {w : String} (h : IsWord w) : split w = [w] := by
  have hw := splitFrom_append h.2 [] []
  rw [List.append_nil, List.append_nil] at hw
  rw [split, hw]
  simp [splitFrom, h.1]

theorem split_word_space {w : String} (h : IsWord w) (s : String) :
    split (w ++ " " ++ s) = w :: split s := by
  have hlist : (w ++ " " ++ s).toList = w.toList ++ ' ' :: s.toList := by simp
  rw [split, hlist, splitFrom_append h.2]
  have hspace : isSpace ' ' = true := by decide
  simp [splitFrom, hspace, h.1, split]

theorem isWord_ofList_reverse {word : List Char} (h : ∀ c ∈ word, isSpace c = false)
    (hne : word ≠ []) : IsWord (String.ofList word.reverse) := by
  refine ⟨by simpa using hne, fun c hc => h c ?_⟩
  simpa using hc

theorem isWord_of_mem_splitFrom {cs word : List Char} (h : ∀ c ∈ word, isSpace c = false)
    {w : String} (hw : w ∈ splitFrom cs word) : IsWord w := by
  induction cs generalizing word with
  | nil =>
    by_cases hempty : word = []
    · simp [splitFrom, hempty] at hw
    · obtain rfl : w = String.ofList word.reverse := by simpa [splitFrom, hempty] using hw
      exact isWord_ofList_reverse h hempty
  | cons c cs ih =>
    rw [splitFrom] at hw
    by_cases hc : isSpace c = true
    · rw [if_pos hc] at hw
      by_cases hempty : word = []
      · rw [if_pos (by simp [hempty])] at hw
        exact ih (by simp) hw
      · rw [if_neg (by simpa using hempty)] at hw
        rcases List.mem_cons.mp hw with rfl | hw
        · exact isWord_ofList_reverse h hempty
        · exact ih (by simp) hw
    · rw [if_neg hc] at hw
      refine ih (fun d hd => ?_) hw
      rcases List.mem_cons.mp hd with rfl | hd
      · simpa using hc
      · exact h d hd

/-- What is read off a text are words. -/
theorem isWord_of_mem_split {s w : String} (hw : w ∈ split s) : IsWord w :=
  isWord_of_mem_splitFrom (by simp) hw

/-- A list of words survives being written as one text. -/
theorem split_join {ws : List String} (h : ∀ w ∈ ws, IsWord w) : split (join ws) = ws := by
  induction ws with
  | nil => rfl
  | cons w ws ih =>
    have hw := h w List.mem_cons_self
    cases ws with
    | nil => exact split_word hw
    | cons v vs =>
      change split (w ++ " " ++ join (v :: vs)) = w :: v :: vs
      rw [split_word_space hw, ih fun x hx => h x (List.mem_cons_of_mem _ hx)]

example : split "agents:read  agents:write" = ["agents:read", "agents:write"] := by decide

/-- Numerals name different numbers differently. -/
theorem toString_inj {m n : ℕ} (h : toString m = toString n) : m = n := by
  have hdigits := congrArg String.toList h
  rw [Nat.toString_eq_ofList_toDigits, Nat.toString_eq_ofList_toDigits, String.toList_ofList,
    String.toList_ofList] at hdigits
  calc m = Nat.ofDigitChars 10 (Nat.toDigits 10 m) 0 := Nat.ofDigitChars_ten_toDigits.symm
    _ = Nat.ofDigitChars 10 (Nat.toDigits 10 n) 0 := by rw [hdigits]
    _ = n := Nat.ofDigitChars_ten_toDigits

end Text
