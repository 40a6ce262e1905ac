import FlareAuth.Json

/-!
# Objects by their entries

Spreading one object over another, picking keys and reading fields that are
objects themselves, each with what a lookup finds after it.
-/

namespace FlareAuth

/-- The entries of an object. -/
abbrev Fields := List (String × Json)

namespace Fields

variable {fs gs : Fields} {k : String}

/-- The entries of two objects, where a function joins the values of a common key. -/
def mergeWith (join : Json → Json → Json) (fs gs : Fields) : Fields :=
  fs.map (fun x => (x.1, ((gs.lookup x.1).map (join x.2)).getD x.2)) ++
    gs.filter fun x => (fs.lookup x.1).isNone

/-- `{ ...fs, ...gs }`. -/
def spread (fs gs : Fields) : Fields := mergeWith (fun _ w => w) fs gs

def pick (keys : List String) (fs : Fields) : Fields := fs.filter fun x => keys.contains x.1

def set (fs : Fields) (key : String) (value : Json) : Fields := fs.spread [(key, value)]

def objectField (fs : Fields) (key : String) : Option Fields :=
  match fs.lookup key with
  | some (.object fields) => some fields
  | _ => none

theorem lookup_map (f : String → Json → Json) (fs : Fields) :
    (fs.map fun x => (x.1, f x.1 x.2)).lookup k = (fs.lookup k).map (f k) := by
  induction fs with
  | nil => rfl
  | cons x fs ih =>
    rw [List.map_cons, List.lookup_cons, List.lookup_cons]
    by_cases h : k = x.1
    · subst h
      simp
    · simp only [beq_eq_false_iff_ne.mpr h, ih]

theorem lookup_filter (p : String → Bool) (fs : Fields) :
    (fs.filter fun x => p x.1).lookup k = if p k then fs.lookup k else none := by
  induction fs with
  | nil => simp
  | cons x fs ih =>
    rw [List.lookup_cons]
    by_cases h : k = x.1
    · subst h
      by_cases hp : p x.1
      · rw [List.filter_cons_of_pos (by exact hp), List.lookup_cons]
        simp [hp]
      · rw [List.filter_cons_of_neg (by exact hp), ih]
        simp [hp]
    · by_cases hp : p x.1
      · rw [List.filter_cons_of_pos (by exact hp), List.lookup_cons]
        simp only [beq_eq_false_iff_ne.mpr h, ih]
      · rw [List.filter_cons_of_neg (by exact hp), ih]
        simp only [beq_eq_false_iff_ne.mpr h]

theorem lookup_mergeWith (join : Json → Json → Json) : (mergeWith join fs gs).lookup k =
    ((fs.lookup k).map fun v => ((gs.lookup k).map (join v)).getD v).or (gs.lookup k) := by
  rw [mergeWith, List.lookup_append,
    lookup_map (fun key v => ((gs.lookup key).map (join v)).getD v),
    lookup_filter fun key => (fs.lookup key).isNone]
  cases fs.lookup k <;> simp

@[simp] theorem lookup_spread : (fs.spread gs).lookup k = (gs.lookup k).or (fs.lookup k) := by
  rw [spread, lookup_mergeWith]
  cases fs.lookup k <;> cases gs.lookup k <;> simp

@[simp] theorem lookup_pick {keys : List String} :
    (pick keys fs).lookup k = if k ∈ keys then fs.lookup k else none := by
  rw [pick, lookup_filter fun key => keys.contains key]
  simp

theorem pick_pick (keys : List String) : pick keys (pick keys fs) = pick keys fs := by
  rw [pick, pick, List.filter_filter]
  simp

@[simp] theorem lookup_set_self {v : Json} : (fs.set k v).lookup k = some v := by
  simp [set]

theorem lookup_set_of_ne {k' : String} {v : Json} (h : k' ≠ k) :
    (fs.set k v).lookup k' = fs.lookup k' := by
  simp [set, List.lookup_cons, beq_eq_false_iff_ne.mpr h]

theorem objectField_congr (h : fs.lookup k = gs.lookup k) :
    fs.objectField k = gs.objectField k := by
  rw [objectField, objectField, h]

@[simp] theorem objectField_set_self {fields : Fields} :
    (fs.set k (.object fields)).objectField k = some fields := by
  rw [objectField, lookup_set_self]

end Fields

end FlareAuth
