import FlareAuth.Text.Strings

/-!
# JSON values and their canonical text

Values as `JSON.parse` gives them: an object is the list of its entries in the
order of `Object.entries`, and a number is kept as the text `JSON.stringify`
prints for it. `canonicalJson` sorts the entries of every object by key.
-/

namespace FlareAuth

def isNumberChar (c : Char) : Bool := c.isDigit || ['-', '+', '.', 'e'].contains c

/-- The characters of a printed number, of which the first is a digit or a minus sign. -/
def isNumberText (text : String) : Bool :=
  match text.toList with
  | [] => false
  | c :: cs => (c.isDigit || c == '-') && cs.all isNumberChar

structure NumberText where
  text : String
  valid : isNumberText text = true
  deriving DecidableEq

theorem NumberText.ext_iff {a b : NumberText} : a = b ↔ a.text = b.text := by
  cases a
  cases b
  simp

instance : Coe NumberText String := ⟨NumberText.text⟩

theorem isNumberText_toString (n : ℕ) : isNumberText (toString n) = true := by
  have hdigits : ∀ c ∈ Nat.toDigits 10 n, c.isDigit = true :=
    fun c hc => Nat.isDigit_of_mem_toDigits (by decide) (by decide) hc
  have hlist : (toString n).toList = Nat.toDigits 10 n := by
    simp [toString, Nat.repr]
  rw [isNumberText, hlist]
  cases hn : Nat.toDigits 10 n with
  | nil => exact absurd hn Nat.toDigits_ne_nil
  | cons c cs =>
    rw [hn] at hdigits
    obtain ⟨hc, hcs⟩ := List.forall_mem_cons.mp hdigits
    rw [Bool.and_eq_true, hc, Bool.true_or, List.all_eq_true]
    exact ⟨rfl, fun d hd => by rw [isNumberChar, hcs d hd, Bool.true_or]⟩

def NumberText.ofNat (n : ℕ) : NumberText := ⟨toString n, isNumberText_toString n⟩

inductive Json where
  | null
  | bool (value : Bool)
  | number (text : NumberText)
  | string (value : String)
  | array (items : List Json)
  | object (fields : List (String × Json))

namespace Json

mutual

def beq : Json → Json → Bool
  | .null, .null => true
  | .bool a, .bool b => a == b
  | .number a, .number b => a.text == b.text
  | .string a, .string b => a == b
  | .array as, .array bs => beqItems as bs
  | .object as, .object bs => beqFields as bs
  | _, _ => false

def beqItems : List Json → List Json → Bool
  | [], [] => true
  | a :: as, b :: bs => beq a b && beqItems as bs
  | _, _ => false

def beqFields : List (String × Json) → List (String × Json) → Bool
  | [], [] => true
  | (k, a) :: as, (l, b) :: bs => k == l && beq a b && beqFields as bs
  | _, _ => false

end

mutual

theorem beq_iff : ∀ a b : Json, beq a b = true ↔ a = b
  | .null, b => by cases b <;> simp [beq]
  | .bool _, b => by cases b <;> simp [beq]
  | .number a, b => by cases b <;> simp [beq, NumberText.ext_iff]
  | .string _, b => by cases b <;> simp [beq]
  | .array as, b => by cases b <;> simp [beq, beqItems_iff as]
  | .object as, b => by cases b <;> simp [beq, beqFields_iff as]

theorem beqItems_iff : ∀ as bs : List Json, beqItems as bs = true ↔ as = bs
  | [], bs => by cases bs <;> simp [beqItems]
  | a :: as, bs => by cases bs <;> simp [beqItems, beq_iff a, beqItems_iff as]

theorem beqFields_iff : ∀ as bs : List (String × Json), beqFields as bs = true ↔ as = bs
  | [], bs => by cases bs <;> simp [beqFields]
  | (k, a) :: as, bs => by
    cases bs <;> simp [beqFields, Prod.ext_iff, beq_iff a, beqFields_iff as]

end

instance : DecidableEq Json := fun a b => decidable_of_iff _ (beq_iff a b)

end Json

/-- `String.prototype.localeCompare` in the locale of the runtime. -/
class Locale where
  localeCompare : String → String → Ordering

export Locale (localeCompare)

/-- A locale in which strings compare by code point. -/
instance (priority := low) codePointLocale : Locale := ⟨compare⟩

namespace Json

def hexDigit (n : ℕ) : Char := if n < 10 then Char.ofNat (48 + n) else Char.ofNat (87 + n)

def escape (c : Char) : List Char :=
  if c = '"' then ['\\', '"']
  else if c = '\\' then ['\\', '\\']
  else if c.toNat = 0x8 then ['\\', 'b']
  else if c.toNat = 0x9 then ['\\', 't']
  else if c.toNat = 0xA then ['\\', 'n']
  else if c.toNat = 0xC then ['\\', 'f']
  else if c.toNat = 0xD then ['\\', 'r']
  else if c.toNat < 0x20 then
    ['\\', 'u', '0', '0', hexDigit (c.toNat / 16), hexDigit (c.toNat % 16)]
  else [c]

/-- `JSON.stringify` of a string. -/
def quote (s : String) : String := "\"" ++ String.ofList (s.toList.flatMap escape) ++ "\""

def commaSeparated : List String → String
  | [] => ""
  | [s] => s
  | s :: ss => s ++ "," ++ commaSeparated ss

end Json

/-- How a text arranges the rendered entries of an object. -/
abbrev EntryOrder := List (String × String) → List (String × String)

namespace Json

mutual

def render (arrange : EntryOrder) : Json → String
  | .null => "null"
  | .bool true => "true"
  | .bool false => "false"
  | .number text => text
  | .string s => quote s
  | .array items => "[" ++ commaSeparated (renderItems arrange items) ++ "]"
  | .object fields =>
    "\x7b" ++ commaSeparated ((arrange (renderEntries arrange fields)).map fun x =>
      quote x.1 ++ ":" ++ x.2) ++ "\x7d"

def renderItems (arrange : EntryOrder) : List Json → List String
  | [] => []
  | item :: items => render arrange item :: renderItems arrange items

def renderEntries (arrange : EntryOrder) : List (String × Json) → List (String × String)
  | [] => []
  | (key, value) :: fields => (key, render arrange value) :: renderEntries arrange fields

end

/-- `JSON.stringify`. -/
def stringify (value : Json) : String := render id value

def stringifyAll (values : List Json) : String := stringify (.array values)

def field (value : Json) (key : String) : Option Json :=
  match value with
  | .object fields => (fields.find? fun x => x.1 = key).map (·.2)
  | _ => none

/-- The value of a field whose `typeof` is `'string'`. -/
def stringField (value : Json) (key : String) : Option String :=
  match value.field key with
  | some (.string s) => some s
  | _ => none

mutual

/-- `String(value)`, in which an array is the list of its elements' texts. -/
def text : Json → String
  | .null => "null"
  | .bool true => "true"
  | .bool false => "false"
  | .number text => text
  | .string s => s
  | .array items => commaSeparated (itemTexts items)
  | .object _ => "[object Object]"

def itemTexts : List Json → List String
  | [] => []
  | item :: items =>
    (match item with
      | .null => ""
      | item => text item) :: itemTexts items

end

end Json

def sortByKey [Locale] : EntryOrder := fun entries =>
  entries.insertionSort fun x y => localeCompare x.1 y.1 ≠ .gt

def canonicalJson [Locale] (value : Json) : String := value.render sortByKey

end FlareAuth
