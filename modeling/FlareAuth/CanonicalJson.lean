import FlareAuth.Json
import Mathlib.Data.List.Sort
import Mathlib.Data.List.Perm.Basic

/-!
# Canonical texts are faithful

The text of a value can be read in one way only: its first character tells the
kind of the value, and each kind tells where it ends. A canonical text is the
plain text of the value with its objects sorted, so two values have one
canonical text exactly when they differ in the order of keys alone.
-/

namespace FlareAuth

namespace Json

section Strings

def hexValue (c : Char) : ℕ := if c.isDigit then c.toNat - 48 else c.toNat - 87

/-- Reads one character of a quoted text. -/
def unescape : List Char → Option (Char × List Char)
  | '\\' :: '"' :: cs => some ('"', cs)
  | '\\' :: '\\' :: cs => some ('\\', cs)
  | '\\' :: 'b' :: cs => some (Char.ofNat 0x8, cs)
  | '\\' :: 't' :: cs => some (Char.ofNat 0x9, cs)
  | '\\' :: 'n' :: cs => some (Char.ofNat 0xA, cs)
  | '\\' :: 'f' :: cs => some (Char.ofNat 0xC, cs)
  | '\\' :: 'r' :: cs => some (Char.ofNat 0xD, cs)
  | '\\' :: 'u' :: '0' :: '0' :: a :: b :: cs =>
    some (Char.ofNat (16 * hexValue a + hexValue b), cs)
  | c :: cs => some (c, cs)
  | [] => none

theorem hexValue_hexDigit {n : ℕ} (h : n < 16) : hexValue (hexDigit n) = n := by
  have hall : ∀ n < 16, hexValue (hexDigit n) = n := by decide
  exact hall n h

theorem unescape_escape (c : Char) (cs : List Char) : unescape (escape c ++ cs) = some (c, cs) := by
  have hchar : ∀ n, c.toNat = n → Char.ofNat n = c := by
    rintro n rfl
    exact Char.ofNat_toNat c
  unfold escape
  split_ifs with hquote hbackslash hb ht hn hf hr hcontrol
  · rw [hquote]
    rfl
  · rw [hbackslash]
    rfl
  · rw [← hchar _ hb]
    rfl
  · rw [← hchar _ ht]
    rfl
  · rw [← hchar _ hn]
    rfl
  · rw [← hchar _ hf]
    rfl
  · rw [← hchar _ hr]
    rfl
  · have hhigh : hexValue (hexDigit (c.toNat / 16)) = c.toNat / 16 := hexValue_hexDigit (by omega)
    have hlow : hexValue (hexDigit (c.toNat % 16)) = c.toNat % 16 := hexValue_hexDigit (by omega)
    change some (Char.ofNat (16 * hexValue (hexDigit (c.toNat / 16)) +
      hexValue (hexDigit (c.toNat % 16))), cs) = _
    rw [hhigh, hlow, Nat.div_add_mod, Char.ofNat_toNat]
  · rw [List.singleton_append, unescape.eq_def]
    split <;> simp_all

theorem escape_append_inj {c d : Char} {cs ds : List Char} (h : escape c ++ cs = escape d ++ ds) :
    c = d ∧ cs = ds := by
  have hread := congrArg unescape h
  rw [unescape_escape, unescape_escape, Option.some.injEq, Prod.mk.injEq] at hread
  exact hread

theorem quote_not_head_escape (c : Char) (cs ds : List Char) : '"' :: ds ≠ escape c ++ cs := by
  intro h
  unfold escape at h
  split_ifs at h with hquote
  all_goals simp at h
  exact hquote h.1.symm

/-- A quoted text ends at its first quote that is not escaped. -/
theorem escaped_append_inj {cs ds rest rest' : List Char}
    (h : cs.flatMap escape ++ '"' :: rest = ds.flatMap escape ++ '"' :: rest') :
    cs = ds ∧ rest = rest' := by
  induction cs generalizing ds with
  | nil =>
    cases ds with
    | nil => simpa using h
    | cons d ds =>
      rw [List.flatMap_cons, List.append_assoc] at h
      exact absurd h (quote_not_head_escape d _ rest)
  | cons c cs ih =>
    cases ds with
    | nil =>
      rw [List.flatMap_cons, List.append_assoc] at h
      exact absurd h.symm (quote_not_head_escape c _ rest')
    | cons d ds =>
      rw [List.flatMap_cons, List.flatMap_cons, List.append_assoc, List.append_assoc] at h
      obtain ⟨rfl, htail⟩ := escape_append_inj h
      obtain ⟨rfl, hrest⟩ := ih htail
      exact ⟨rfl, hrest⟩

end Strings

section Values

mutual

/-- The text of a value, each list written up to its closing bracket. -/
def chars : Json → List Char
  | .null => ['n', 'u', 'l', 'l']
  | .bool true => ['t', 'r', 'u', 'e']
  | .bool false => ['f', 'a', 'l', 's', 'e']
  | .number text => text.text.toList
  | .string s => '"' :: (s.toList.flatMap escape ++ ['"'])
  | .array [] => ['[', ']']
  | .array (item :: items) => '[' :: (chars item ++ moreItems items)
  | .object [] => ['\x7b', '\x7d']
  | .object ((key, value) :: fields) =>
    '\x7b' :: '"' :: (key.toList.flatMap escape ++ '"' :: ':' :: (chars value ++ moreFields fields))

def moreItems : List Json → List Char
  | [] => [']']
  | item :: items => ',' :: (chars item ++ moreItems items)

def moreFields : List (String × Json) → List Char
  | [] => ['\x7d']
  | (key, value) :: fields =>
    ',' :: '"' :: (key.toList.flatMap escape ++ '"' :: ':' :: (chars value ++ moreFields fields))

end

theorem toList_quote (s : String) :
    (quote s).toList = '"' :: (s.toList.flatMap escape ++ ['"']) := by
  simp [quote]

theorem toList_commaSeparated_cons (s : String) (ss : List String) :
    (commaSeparated (s :: ss)).toList = s.toList ++ ss.flatMap fun t => ',' :: t.toList := by
  induction ss generalizing s with
  | nil => simp [commaSeparated]
  | cons t ss ih => simp [commaSeparated, ih t]

mutual

theorem toList_stringify : ∀ a : Json, a.stringify.toList = a.chars
  | .null => by decide
  | .bool true => by decide
  | .bool false => by decide
  | .number _ => rfl
  | .string s => by rw [stringify, render, chars, toList_quote]
  | .array [] => by decide
  | .array (item :: items) => by
    rw [stringify, render, chars, renderItems, String.toList_append, String.toList_append,
      toList_commaSeparated_cons, ← toList_moreItems items]
    change '[' :: (item.stringify.toList ++ _) ++ [']'] = _
    rw [toList_stringify item]
    simp
  | .object [] => by decide
  | .object ((key, value) :: fields) => by
    rw [stringify, render, chars, renderEntries, String.toList_append, String.toList_append,
      id, List.map_cons, toList_commaSeparated_cons, ← toList_moreFields fields]
    rw [String.toList_append, String.toList_append, toList_quote]
    change '\x7b' :: (('"' :: (key.toList.flatMap escape ++ ['"']) ++ [':'] ++
      value.stringify.toList) ++ _) ++ ['\x7d'] = _
    rw [toList_stringify value]
    simp

theorem toList_moreItems : ∀ items : List Json,
    ((renderItems id items).flatMap fun t => ',' :: t.toList) ++ [']'] = moreItems items
  | [] => rfl
  | item :: items => by
    rw [renderItems, moreItems, List.flatMap_cons, ← toList_moreItems items,
      ← toList_stringify item]
    simp [stringify]

theorem toList_moreFields : ∀ fields : List (String × Json),
    (((renderEntries id fields).map fun x => quote x.1 ++ ":" ++ x.2).flatMap fun t =>
      ',' :: t.toList) ++ ['\x7d'] = moreFields fields
  | [] => rfl
  | (key, value) :: fields => by
    rw [renderEntries, moreFields, List.map_cons, List.flatMap_cons, ← toList_moreFields fields,
      ← toList_stringify value, String.toList_append, String.toList_append, toList_quote]
    simp [stringify]

end

end Values

section Reading

/-- What follows a value: not a character that could go on with a number. -/
def Stops (rest : List Char) : Prop := ∀ c cs, rest = c :: cs → isNumberChar c = false

theorem stops_moreItems (items : List Json) (rest : List Char) :
    Stops (moreItems items ++ rest) := by
  intro c cs h
  cases items with
  | nil =>
    obtain rfl := (List.cons.inj h).1
    decide
  | cons item items =>
    obtain rfl := (List.cons.inj h).1
    decide

theorem stops_moreFields (fields : List (String × Json)) (rest : List Char) :
    Stops (moreFields fields ++ rest) := by
  intro c cs h
  cases fields with
  | nil =>
    obtain rfl := (List.cons.inj h).1
    decide
  | cons field fields =>
    obtain rfl := (List.cons.inj h).1
    decide

theorem stops_nil : Stops [] := fun _ _ h => nomatch h

inductive Kind where
  | null
  | true
  | false
  | number
  | string
  | array
  | object
  deriving DecidableEq

def kind : Json → Kind
  | .null => .null
  | .bool true => .true
  | .bool false => .false
  | .number _ => .number
  | .string _ => .string
  | .array _ => .array
  | .object _ => .object

/-- The kind of value that begins with a character. -/
def kindAt (c : Char) : Kind :=
  if c = 'n' then .null
  else if c = 't' then .true
  else if c = 'f' then .false
  else if c = '"' then .string
  else if c = '[' then .array
  else if c = '\x7b' then .object
  else .number

theorem number_cons (text : NumberText) : ∃ c cs, text.text.toList = c :: cs ∧
    kindAt c = .number ∧ c ≠ ']' ∧ (c :: cs).all isNumberChar = true := by
  have hvalid := text.valid
  rw [isNumberText] at hvalid
  cases htext : text.text.toList with
  | nil =>
    rw [htext] at hvalid
    cases hvalid
  | cons c cs =>
    rw [htext, Bool.and_eq_true, Bool.or_eq_true, beq_iff_eq] at hvalid
    have hother : ∀ d : Char, d.isDigit = false → d ≠ '-' → c ≠ d := by
      rintro d hdigit hminus rfl
      rcases hvalid.1 with h | h
      · rw [hdigit] at h
        cases h
      · exact hminus h
    refine ⟨c, cs, rfl, ?_, hother ']' (by decide) (by decide), ?_⟩
    · rw [kindAt, if_neg (hother 'n' (by decide) (by decide)),
        if_neg (hother 't' (by decide) (by decide)), if_neg (hother 'f' (by decide) (by decide)),
        if_neg (hother '"' (by decide) (by decide)), if_neg (hother '[' (by decide) (by decide)),
        if_neg (hother '\x7b' (by decide) (by decide))]
    · rw [List.all_cons, hvalid.2, Bool.and_true, isNumberChar]
      rcases hvalid.1 with h | rfl
      · rw [h, Bool.true_or]
      · decide

/-- The first character of a text tells the kind of its value. -/
theorem chars_cons (a : Json) : ∃ c cs, a.chars = c :: cs ∧ kindAt c = a.kind ∧ c ≠ ']' := by
  cases a with
  | null => exact ⟨_, _, rfl, rfl, by decide⟩
  | bool b => cases b <;> exact ⟨_, _, rfl, rfl, by decide⟩
  | number text =>
    obtain ⟨c, cs, htext, hkind, hne, _⟩ := number_cons text
    exact ⟨c, cs, htext, hkind, hne⟩
  | string s => exact ⟨_, _, rfl, rfl, by decide⟩
  | array items => cases items <;> exact ⟨_, _, rfl, rfl, by decide⟩
  | object fields => cases fields <;> exact ⟨_, _, rfl, rfl, by decide⟩

theorem kind_eq {a b : Json} {rest rest' : List Char} (h : a.chars ++ rest = b.chars ++ rest') :
    a.kind = b.kind := by
  obtain ⟨c, cs, ha, hc, _⟩ := chars_cons a
  obtain ⟨d, ds, hb, hd, _⟩ := chars_cons b
  rw [ha, hb] at h
  rw [← hc, ← hd, (List.cons.inj h).1]

/-- A number ends where no character can go on with it. -/
theorem number_append_inj {a b : NumberText} {rest rest' : List Char} (hrest : Stops rest)
    (hrest' : Stops rest') (h : a.text.toList ++ rest = b.text.toList ++ rest') :
    a = b ∧ rest = rest' := by
  have htake : ∀ (text : NumberText) (rest : List Char), Stops rest →
      (text.text.toList ++ rest).takeWhile isNumberChar = text.text.toList := by
    intro text rest hstops
    obtain ⟨c, cs, htext, _, _, hall⟩ := number_cons text
    rw [← htext, List.all_eq_true] at hall
    rw [List.takeWhile_append_of_pos hall]
    cases rest with
    | nil => simp
    | cons d ds => simp [hstops d ds rfl]
  have hsame : a.text.toList = b.text.toList := by
    rw [← htake a rest hrest, h, htake b rest' hrest']
  rw [hsame] at h
  exact ⟨NumberText.ext_iff.mpr (String.toList_injective hsame), List.append_cancel_left h⟩

theorem closed_ne_items (item : Json) (items : List Json) (rest rest' : List Char) :
    chars (.array []) ++ rest ≠ chars (.array (item :: items)) ++ rest' := by
  intro h
  obtain ⟨c, cs, hitem, _, hne⟩ := chars_cons item
  rw [chars, chars, hitem] at h
  exact hne (List.cons.inj (List.cons.inj h).2).1.symm

mutual

/-- A text is read in one way, whatever follows it. -/
theorem chars_append_inj : ∀ (a b : Json) (rest rest' : List Char), Stops rest → Stops rest' →
    a.chars ++ rest = b.chars ++ rest' → a = b ∧ rest = rest'
  | a, b, rest, rest', hrest, hrest', h => by
    have hkind := kind_eq h
    match a, b, hkind, h with
    | .null, .null, _, h => exact ⟨rfl, List.append_cancel_left h⟩
    | .bool true, .bool true, _, h => exact ⟨rfl, List.append_cancel_left h⟩
    | .bool false, .bool false, _, h => exact ⟨rfl, List.append_cancel_left h⟩
    | .number text, .number text', _, h =>
      obtain ⟨rfl, hsame⟩ := number_append_inj hrest hrest' h
      exact ⟨rfl, hsame⟩
    | .string s, .string s', _, h =>
      rw [chars, chars, List.cons_append, List.cons_append, List.append_assoc,
        List.append_assoc] at h
      obtain ⟨hs, hsame⟩ := escaped_append_inj (List.cons.inj h).2
      rw [String.toList_injective hs]
      exact ⟨rfl, hsame⟩
    | .array [], .array [], _, h => exact ⟨rfl, List.append_cancel_left h⟩
    | .array [], .array (item' :: items'), _, h => exact absurd h (closed_ne_items item' items' _ _)
    | .array (item :: items), .array [], _, h =>
      exact absurd h.symm (closed_ne_items item items _ _)
    | .array (item :: items), .array (item' :: items'), _, h =>
      rw [chars, chars, List.cons_append, List.cons_append, List.append_assoc,
        List.append_assoc] at h
      obtain ⟨rfl, hmore⟩ := chars_append_inj item item' _ _ (stops_moreItems items rest)
        (stops_moreItems items' rest') (List.cons.inj h).2
      obtain ⟨rfl, hsame⟩ := moreItems_append_inj items items' rest rest' hmore
      exact ⟨rfl, hsame⟩
    | .object [], .object [], _, h => exact ⟨rfl, List.append_cancel_left h⟩
    | .object [], .object (field' :: fields'), _, h => exact absurd h (by simp [chars])
    | .object (field :: fields), .object [], _, h => exact absurd h (by simp [chars])
    | .object ((key, value) :: fields), .object ((key', value') :: fields'), _, h =>
      simp only [chars, List.cons_append, List.append_assoc] at h
      obtain ⟨hkey, hvalue⟩ := escaped_append_inj (List.cons.inj (List.cons.inj h).2).2
      obtain ⟨rfl, hmore⟩ := chars_append_inj value value' _ _ (stops_moreFields fields rest)
        (stops_moreFields fields' rest') (List.cons.inj hvalue).2
      obtain ⟨rfl, hsame⟩ := moreFields_append_inj fields fields' rest rest' hmore
      rw [String.toList_injective hkey]
      exact ⟨rfl, hsame⟩

theorem moreItems_append_inj : ∀ (items items' : List Json) (rest rest' : List Char),
    moreItems items ++ rest = moreItems items' ++ rest' → items = items' ∧ rest = rest'
  | [], [], _, _, h => ⟨rfl, List.append_cancel_left h⟩
  | [], _ :: _, _, _, h => absurd h (by simp [moreItems])
  | _ :: _, [], _, _, h => absurd h (by simp [moreItems])
  | item :: items, item' :: items', rest, rest', h => by
    rw [moreItems, moreItems, List.cons_append, List.cons_append, List.append_assoc,
      List.append_assoc] at h
    obtain ⟨rfl, hmore⟩ := chars_append_inj item item' _ _ (stops_moreItems items rest)
      (stops_moreItems items' rest') (List.cons.inj h).2
    obtain ⟨rfl, hsame⟩ := moreItems_append_inj items items' rest rest' hmore
    exact ⟨rfl, hsame⟩

theorem moreFields_append_inj : ∀ (fields fields' : List (String × Json)) (rest rest' : List Char),
    moreFields fields ++ rest = moreFields fields' ++ rest' → fields = fields' ∧ rest = rest'
  | [], [], _, _, h => ⟨rfl, List.append_cancel_left h⟩
  | [], _ :: _, _, _, h => absurd h (by simp [moreFields])
  | _ :: _, [], _, _, h => absurd h (by simp [moreFields])
  | (key, value) :: fields, (key', value') :: fields', rest, rest', h => by
    simp only [moreFields, List.cons_append, List.append_assoc] at h
    obtain ⟨hkey, hvalue⟩ := escaped_append_inj (List.cons.inj (List.cons.inj h).2).2
    obtain ⟨rfl, hmore⟩ := chars_append_inj value value' _ _ (stops_moreFields fields rest)
      (stops_moreFields fields' rest') (List.cons.inj hvalue).2
    obtain ⟨rfl, hsame⟩ := moreFields_append_inj fields fields' rest rest' hmore
    rw [String.toList_injective hkey]
    exact ⟨rfl, hsame⟩

end

/-- `JSON.stringify` tells values apart. -/
theorem stringify_injective : Function.Injective stringify := by
  intro a b h
  have hchars := congrArg String.toList h
  rw [toList_stringify, toList_stringify] at hchars
  have happend : a.chars ++ [] = b.chars ++ [] := by rw [hchars]
  exact (chars_append_inj a b [] [] stops_nil stops_nil happend).1

end Reading

section Order

mutual

/-- Equal up to the order of keys in every object. -/
inductive Same : Json → Json → Prop where
  | null : Same .null .null
  | bool (value : Bool) : Same (.bool value) (.bool value)
  | number (text : NumberText) : Same (.number text) (.number text)
  | string (value : String) : Same (.string value) (.string value)
  | array {items items' : List Json} : SameItems items items' → Same (.array items) (.array items')
  | object {fields fields' ordered : List (String × Json)} : SameFields fields ordered →
      ordered.Perm fields' → Same (.object fields) (.object fields')

inductive SameItems : List Json → List Json → Prop where
  | nil : SameItems [] []
  | cons {item item' : Json} {items items' : List Json} : Same item item' → SameItems items items' →
      SameItems (item :: items) (item' :: items')

inductive SameFields : List (String × Json) → List (String × Json) → Prop where
  | nil : SameFields [] []
  | cons {value value' : Json} {fields fields' : List (String × Json)} (key : String) :
      Same value value' → SameFields fields fields' →
      SameFields ((key, value) :: fields) ((key, value') :: fields')

end

mutual

def KeysDistinct : Json → Prop
  | .array items => ItemsDistinct items
  | .object fields => (fields.map (·.1)).Nodup ∧ FieldsDistinct fields
  | _ => True

def ItemsDistinct : List Json → Prop
  | [] => True
  | item :: items => KeysDistinct item ∧ ItemsDistinct items

def FieldsDistinct : List (String × Json) → Prop
  | [] => True
  | (_, value) :: fields => KeysDistinct value ∧ FieldsDistinct fields

end

variable [Locale]

def KeyLE {α : Type} (x y : String × α) : Prop := localeCompare x.1 y.1 ≠ .gt

instance {α : Type} : DecidableRel (KeyLE (α := α)) := fun x y =>
  inferInstanceAs (Decidable (localeCompare x.1 y.1 ≠ .gt))

mutual

def sorted : Json → Json
  | .array items => .array (sortedItems items)
  | .object fields => .object ((sortedFields fields).insertionSort KeyLE)
  | .null => .null
  | .bool value => .bool value
  | .number text => .number text
  | .string value => .string value

def sortedItems : List Json → List Json
  | [] => []
  | item :: items => sorted item :: sortedItems items

def sortedFields : List (String × Json) → List (String × Json)
  | [] => []
  | (key, value) :: fields => (key, sorted value) :: sortedFields fields

end

omit [Locale] in
theorem renderEntries_eq (arrange : EntryOrder) (fields : List (String × Json)) :
    renderEntries arrange fields = fields.map fun x => (x.1, render arrange x.2) := by
  induction fields with
  | nil => rfl
  | cons x fields ih => rw [renderEntries, ih, List.map_cons]

theorem sortedFields_eq (fields : List (String × Json)) :
    sortedFields fields = fields.map fun x => (x.1, x.2.sorted) := by
  induction fields with
  | nil => rfl
  | cons x fields ih => rw [sortedFields, ih, List.map_cons]

mutual

theorem render_sortByKey : ∀ a : Json, a.render sortByKey = a.sorted.stringify
  | .null => rfl
  | .bool true => rfl
  | .bool false => rfl
  | .number _ => rfl
  | .string _ => rfl
  | .array items => by rw [render, sorted, stringify, render, renderItems_sortByKey items]
  | .object fields => by
    have hsort : sortByKey (renderEntries id (sortedFields fields)) =
        id (renderEntries id ((sortedFields fields).insertionSort KeyLE)) := by
      rw [renderEntries_eq, renderEntries_eq, id, sortByKey]
      have hkeys : ∀ x ∈ sortedFields fields, ∀ y ∈ sortedFields fields,
          KeyLE x y ↔ KeyLE (x.1, render id x.2) (y.1, render id y.2) :=
        fun _ _ _ _ => Iff.rfl
      exact (List.map_insertionSort KeyLE KeyLE _ _ hkeys).symm
    rw [render, sorted, stringify, render, renderEntries_sortByKey fields, hsort]

theorem renderItems_sortByKey : ∀ items : List Json,
    renderItems sortByKey items = renderItems id (sortedItems items)
  | [] => rfl
  | item :: items => by
    rw [renderItems, sortedItems, renderItems, render_sortByKey item, renderItems_sortByKey items,
      stringify]

theorem renderEntries_sortByKey : ∀ fields : List (String × Json),
    renderEntries sortByKey fields = renderEntries id (sortedFields fields)
  | [] => rfl
  | (key, value) :: fields => by
    rw [renderEntries, sortedFields, renderEntries, render_sortByKey value,
      renderEntries_sortByKey fields, stringify]

end

theorem canonicalJson_eq (a : Json) : canonicalJson a = a.sorted.stringify := render_sortByKey a

omit [Locale] in
/-- A permutation of the images of a list is the image of a permutation. -/
theorem exists_perm_of_perm_map {α β : Type} {f : α → β} {xs : List β} {ys : List α}
    (h : xs.Perm (ys.map f)) : ∃ zs : List α, xs = zs.map f ∧ zs.Perm ys := by
  have hself : List.Forall₂ (fun x y => x = f y) (ys.map f) ys :=
    List.forall₂_map_left_iff.mpr (List.forall₂_same.mpr fun _ _ => rfl)
  obtain ⟨zs, hzs, hperm⟩ := List.perm_comp_forall₂ h hself
  rw [← List.forall₂_map_right_iff (f := f), List.forall₂_eq_eq_eq] at hzs
  exact ⟨zs, hzs, hperm⟩

mutual

/-- Values with one sorted form differ in the order of keys alone. -/
theorem same_of_sorted : ∀ a b : Json, a.sorted = b.sorted → Same a b
  | .null, b, h => by
    cases b <;> simp [sorted] at h
    exact .null
  | .bool value, b, h => by
    cases b <;> simp [sorted] at h
    rw [h]
    exact .bool _
  | .number text, b, h => by
    cases b <;> simp [sorted] at h
    rw [h]
    exact .number _
  | .string value, b, h => by
    cases b <;> simp [sorted] at h
    rw [h]
    exact .string _
  | .array items, b, h => by
    cases b <;> simp [sorted] at h
    exact .array (sameItems_of_sorted items _ h)
  | .object fields, b, h => by
    cases b with
    | object fields' =>
      rw [sorted, sorted, object.injEq] at h
      have hperm : (sortedFields fields).Perm (sortedFields fields') := by
        have hleft := List.perm_insertionSort KeyLE (sortedFields fields)
        rw [h] at hleft
        exact hleft.symm.trans (List.perm_insertionSort KeyLE _)
      rw [sortedFields_eq fields'] at hperm
      obtain ⟨ordered, hordered, hperm⟩ := exists_perm_of_perm_map hperm
      rw [← sortedFields_eq] at hordered
      exact .object (sameFields_of_sorted fields ordered hordered) hperm
    | _ => simp [sorted] at h

theorem sameItems_of_sorted : ∀ items items' : List Json,
    sortedItems items = sortedItems items' → SameItems items items'
  | [], [], _ => .nil
  | [], _ :: _, h => by simp [sortedItems] at h
  | _ :: _, [], h => by simp [sortedItems] at h
  | item :: items, item' :: items', h => by
    rw [sortedItems, sortedItems, List.cons.injEq] at h
    exact .cons (same_of_sorted item item' h.1) (sameItems_of_sorted items items' h.2)

theorem sameFields_of_sorted : ∀ fields fields' : List (String × Json),
    sortedFields fields = sortedFields fields' → SameFields fields fields'
  | [], [], _ => .nil
  | [], _ :: _, h => by simp [sortedFields] at h
  | _ :: _, [], h => by simp [sortedFields] at h
  | (key, value) :: fields, (key', value') :: fields', h => by
    rw [sortedFields, sortedFields, List.cons.injEq, Prod.mk.injEq] at h
    obtain ⟨⟨rfl, hvalue⟩, hfields⟩ := h
    exact .cons key (same_of_sorted value value' hvalue)
      (sameFields_of_sorted fields fields' hfields)

end

section Total

variable [Std.TransCmp (localeCompare)] [Std.LawfulEqCmp (localeCompare)]

instance : Std.Total (KeyLE (α := Json)) where
  total x y := by
    have hswap : localeCompare y.1 x.1 = (localeCompare x.1 y.1).swap := Std.OrientedCmp.eq_swap
    rw [KeyLE, KeyLE, hswap]
    cases localeCompare x.1 y.1 <;> simp

instance : IsTrans (String × Json) KeyLE where
  trans x y z hxy hyz := by
    have hle := Std.TransCmp.isLE_trans (Ordering.isLE_iff_ne_gt.mpr hxy)
      (Ordering.isLE_iff_ne_gt.mpr hyz)
    exact Ordering.isLE_iff_ne_gt.mp hle

theorem key_eq_of_le {x y : String × Json} (hxy : KeyLE x y) (hyx : KeyLE y x) : x.1 = y.1 := by
  have heq := Std.OrientedCmp.isLE_antisymm (Ordering.isLE_iff_ne_gt.mpr hxy)
    (Ordering.isLE_iff_ne_gt.mpr hyx)
  exact Std.LawfulEqCmp.eq_of_compare heq

/-- Lists of entries with distinct keys that are permutations of each other sort to one list. -/
theorem sort_eq_of_perm {fields fields' : List (String × Json)} (h : fields.Perm fields')
    (hkeys : (fields.map (·.1)).Nodup) :
    fields.insertionSort KeyLE = fields'.insertionSort KeyLE := by
  have hperm : (fields.insertionSort KeyLE).Perm (fields'.insertionSort KeyLE) :=
    (List.perm_insertionSort KeyLE fields).trans
      (h.trans (List.perm_insertionSort KeyLE fields').symm)
  refine List.Perm.eq_of_pairwise ?_ (List.pairwise_insertionSort KeyLE fields)
    (List.pairwise_insertionSort KeyLE fields') hperm
  intro x y hx hy hxy hyx
  rw [List.mem_insertionSort] at hx hy
  exact List.inj_on_of_nodup_map hkeys hx (h.mem_iff.mpr hy) (key_eq_of_le hxy hyx)

end Total

omit [Locale] in
theorem keys_of_sameFields : ∀ fields fields' : List (String × Json), SameFields fields fields' →
    fields.map (·.1) = fields'.map (·.1)
  | [], [], .nil => rfl
  | (_, _) :: fields, (_, _) :: fields', .cons _ _ hfields => by
    rw [List.map_cons, List.map_cons, keys_of_sameFields fields fields' hfields]

omit [Locale] in
/-- Entries with distinct keys are in one order if their keys are. -/
theorem eq_of_perm_of_keys {fields fields' : List (String × Json)} (h : fields.Perm fields')
    (hsame : fields.map (·.1) = fields'.map (·.1)) (hkeys : (fields.map (·.1)).Nodup) :
    fields = fields' := by
  induction fields generalizing fields' with
  | nil => exact h.nil_eq
  | cons x fields ih =>
    cases fields' with
    | nil => simp at hsame
    | cons y fields' =>
      rw [List.map_cons, List.map_cons, List.cons.injEq] at hsame
      rw [List.map_cons, List.nodup_cons] at hkeys
      have hx : x = y := by
        rcases List.mem_cons.mp (h.mem_iff.mp List.mem_cons_self) with hxy | hmem
        · exact hxy
        · rw [hsame.2] at hkeys
          exact absurd (List.mem_map_of_mem hmem) hkeys.1
      subst hx
      rw [ih h.cons_inv hsame.2 hkeys.2]

omit [Locale] in
/-- Objects with one sequence of distinct keys are equal entry by entry. -/
theorem sameFields_of_same {fields fields' : List (String × Json)}
    (h : Same (.object fields) (.object fields')) (hsame : fields.map (·.1) = fields'.map (·.1))
    (hkeys : (fields.map (·.1)).Nodup) : SameFields fields fields' := by
  cases h with
  | @object _ _ ordered hfields hperm =>
    have hordered := keys_of_sameFields fields ordered hfields
    rw [eq_of_perm_of_keys hperm (hordered.symm.trans hsame) (hordered ▸ hkeys)] at hfields
    exact hfields

theorem keys_sortedFields (fields : List (String × Json)) :
    (sortedFields fields).map (·.1) = fields.map (·.1) := by
  rw [sortedFields_eq, List.map_map]
  rfl

mutual

/-- Values that differ in the order of keys alone have one sorted form. -/
theorem sorted_of_same [Std.TransCmp (localeCompare)] [Std.LawfulEqCmp (localeCompare)] :
    ∀ a b : Json, a.KeysDistinct → Same a b → a.sorted = b.sorted
  | _, _, _, .null => rfl
  | _, _, _, .bool _ => rfl
  | _, _, _, .number _ => rfl
  | _, _, _, .string _ => rfl
  | .array items, .array items', hdistinct, .array hitems => by
    rw [sorted, sorted, sortedItems_of_same items items' hdistinct hitems]
  | .object fields, .object fields', hdistinct, @Same.object _ _ ordered hfields hperm => by
    have hsame := sortedFields_of_same fields ordered hdistinct.2 hfields
    have hkeys : ((sortedFields ordered).map (·.1)).Nodup := by
      rw [← hsame, keys_sortedFields]
      exact hdistinct.1
    have hsorted : (sortedFields ordered).Perm (sortedFields fields') := by
      rw [sortedFields_eq, sortedFields_eq]
      exact hperm.map _
    rw [sorted, sorted, hsame, sort_eq_of_perm hsorted hkeys]

theorem sortedItems_of_same [Std.TransCmp (localeCompare)] [Std.LawfulEqCmp (localeCompare)] :
    ∀ items items' : List Json, ItemsDistinct items →
      SameItems items items' → sortedItems items = sortedItems items'
  | [], [], _, .nil => rfl
  | item :: items, item' :: items', hdistinct, .cons hitem hitems => by
    rw [sortedItems, sortedItems, sorted_of_same item item' hdistinct.1 hitem,
      sortedItems_of_same items items' hdistinct.2 hitems]

theorem sortedFields_of_same [Std.TransCmp (localeCompare)] [Std.LawfulEqCmp (localeCompare)] :
    ∀ fields fields' : List (String × Json), FieldsDistinct fields →
      SameFields fields fields' → sortedFields fields = sortedFields fields'
  | [], [], _, .nil => rfl
  | (key, value) :: fields, (_, value') :: fields', hdistinct, .cons _ hvalue hfields => by
    rw [sortedFields, sortedFields, sorted_of_same value value' hdistinct.1 hvalue,
      sortedFields_of_same fields fields' hdistinct.2 hfields]

end

/-- Two values have one canonical text exactly when they are equal up to the order of keys. -/
theorem canonicalJson_eq_iff [Std.TransCmp (localeCompare)] [Std.LawfulEqCmp (localeCompare)]
    {a b : Json} (ha : a.KeysDistinct) :
    canonicalJson a = canonicalJson b ↔ Same a b := by
  rw [canonicalJson_eq, canonicalJson_eq, stringify_injective.eq_iff]
  exact ⟨same_of_sorted a b, sorted_of_same a b ha⟩

end Order

end Json

end FlareAuth
