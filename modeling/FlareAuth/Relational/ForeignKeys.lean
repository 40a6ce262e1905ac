import Mathlib.Data.List.Count
import Mathlib.Logic.Function.Iterate
import Mathlib.Tactic.Common

/-!
# Deletions under foreign keys

A database is a list of rows and its schema a list of references. A deletion
takes along what refers to the deleted rows by a cascading reference, level by
level until nothing more follows, clears the references that become null, and is
refused as a whole where a restricting reference points to a row that would go.
-/

namespace Relational

inductive OnDelete where
  | cascade | restrict | setNull
  deriving DecidableEq

structure Reference (τ κ : Type) where
  child : τ
  column : κ
  parent : τ
  key : κ
  onDelete : OnDelete
  deriving DecidableEq

/-- A row of some table. A column without a value is null. -/
structure Row (τ κ ν : Type) where
  table : τ
  values : List (κ × ν)
  deriving DecidableEq

variable {τ κ ν : Type} [DecidableEq τ] [DecidableEq κ] [DecidableEq ν]

def Row.get (r : Row τ κ ν) (c : κ) : Option ν := r.values.lookup c

namespace Reference

/-- The row points by this reference to the other row. -/
def links (f : Reference τ κ) (r q : Row τ κ ν) : Bool :=
  r.table = f.child && q.table = f.parent && (r.get f.column).isSome && r.get f.column = q.get f.key

end Reference

variable (schema : List (Reference τ κ)) (rows : List (Row τ κ ν)) (p : Row τ κ ν → Bool)

def linked (action : OnDelete) (r q : Row τ κ ν) : Bool :=
  schema.any fun f => f.onDelete = action && f.links r q

/-- One level of the cascade. -/
def cascade : Row τ κ ν → Bool := fun r =>
  p r || rows.any fun q => p q && linked schema .cascade r q

def doomed : Row τ κ ν → Bool := (cascade schema rows)^[rows.length] p

def restricted : Bool :=
  rows.any fun r => rows.any fun q => doomed schema rows p q && linked schema .restrict r q

/-- The row without the references to rows that are gone. -/
def detach (gone : Row τ κ ν → Bool) (r : Row τ κ ν) : Row τ κ ν where
  table := r.table
  values := r.values.filter fun v => !schema.any fun f =>
    f.onDelete = .setNull && f.column = v.1 && rows.any fun q => gone q && f.links r q

/-- DELETE FROM … WHERE, or nothing where a reference restricts it. -/
def deleteWhere : Option (List (Row τ κ ν)) :=
  if restricted schema rows p then none
  else some ((rows.filter fun r => !doomed schema rows p r).map
    (detach schema rows (doomed schema rows p)))

section Cascade

variable {schema rows p}

def Closed (schema : List (Reference τ κ)) (rows : List (Row τ κ ν))
    (p : Row τ κ ν → Bool) : Prop :=
  ∀ r ∈ rows, cascade schema rows p r = true → p r = true

theorem cascade_eq_true {r : Row τ κ ν} : cascade schema rows p r = true ↔
    p r = true ∨ ∃ q ∈ rows, p q = true ∧ linked schema .cascade r q = true := by
  simp [cascade]

theorem cascade_of {r : Row τ κ ν} (h : p r = true) : cascade schema rows p r = true :=
  cascade_eq_true.mpr (.inl h)

theorem Closed.cascade (h : Closed schema rows p) : Closed schema rows (cascade schema rows p) := by
  intro r hr hlevel
  apply cascade_eq_true.mpr
  rcases cascade_eq_true.mp hlevel with hp | ⟨q, hq, hpq, hlink⟩
  · exact .inl (h r hr hp)
  · exact .inr ⟨q, hq, h q hq hpq, hlink⟩

theorem countP_lt_cascade (h : ¬Closed schema rows p) :
    rows.countP p < rows.countP (cascade schema rows p) := by
  simp only [Closed, not_forall] at h
  obtain ⟨r, hr, hnew, hold⟩ := h
  have hsplit := List.countP_eq_countP_filter_add rows (cascade schema rows p) p
  have hkept : rows.countP p = (rows.filter p).countP (cascade schema rows p) := by
    rw [List.countP_filter]
    apply List.countP_congr
    intro q _
    simp only [Bool.and_eq_true]
    exact ⟨fun hq => ⟨cascade_of hq, hq⟩, And.right⟩
  have hadded : 0 < (rows.filter fun q => !p q).countP (cascade schema rows p) := by
    refine List.countP_pos_iff.mpr ⟨r, ?_, hnew⟩
    simpa [hr] using hold
  omega

/-- As long as a level adds rows there are ever more of them. -/
theorem closed_or_le_countP (n : ℕ) : Closed schema rows ((cascade schema rows)^[n] p) ∨
    n ≤ rows.countP ((cascade schema rows)^[n] p) := by
  induction n with
  | zero => exact .inr (Nat.zero_le _)
  | succ n ih =>
    rw [Function.iterate_succ_apply']
    by_cases hclosed : Closed schema rows ((cascade schema rows)^[n] p)
    · exact .inl hclosed.cascade
    · have hgrows := countP_lt_cascade hclosed
      have hle := ih.resolve_left hclosed
      right
      omega

theorem closed_doomed : Closed schema rows (doomed schema rows p) := by
  have hlevels : Closed schema rows (doomed schema rows p) ∨
      rows.length ≤ rows.countP (doomed schema rows p) := closed_or_le_countP rows.length
  rcases hlevels with h | h
  · exact h
  · have hall := List.countP_eq_length.mp (Nat.le_antisymm List.countP_le_length h)
    exact fun r hr _ => hall r hr

theorem doomed_of {r : Row τ κ ν} (h : p r = true) : doomed schema rows p r = true := by
  have hiterate : ∀ n, (cascade schema rows)^[n] p r = true := by
    intro n
    induction n with
    | zero => exact h
    | succ n ih =>
      rw [Function.iterate_succ_apply']
      exact cascade_of ih
  exact hiterate _

/-- A row goes because it is deleted or because what it cascades from goes. -/
theorem doomed_cases {r : Row τ κ ν} (h : doomed schema rows p r = true) : p r = true ∨
    ∃ q ∈ rows, doomed schema rows p q = true ∧ linked schema .cascade r q = true := by
  have hlater : ∀ n r, (cascade schema rows)^[n] p r = true → p r = true ∨
      ∃ q ∈ rows, (cascade schema rows)^[n] p q = true ∧ linked schema .cascade r q = true := by
    intro n
    induction n with
    | zero => exact fun r hr => .inl hr
    | succ n ih =>
      intro r hr
      rw [Function.iterate_succ_apply'] at hr ⊢
      rcases cascade_eq_true.mp hr with hr | ⟨q, hq, hpq, hlink⟩
      · rcases ih r hr with hp | ⟨q, hq, hpq, hlink⟩
        · exact .inl hp
        · exact .inr ⟨q, hq, cascade_of hpq, hlink⟩
      · exact .inr ⟨q, hq, cascade_of hpq, hlink⟩
  exact hlater _ r h

theorem doomed_iff {r : Row τ κ ν} (hr : r ∈ rows) : doomed schema rows p r = true ↔ p r = true ∨
    ∃ q ∈ rows, doomed schema rows p q = true ∧ linked schema .cascade r q = true := by
  refine ⟨doomed_cases, ?_⟩
  rintro (h | h)
  · exact doomed_of h
  · exact closed_doomed r hr (cascade_eq_true.mpr (.inr h))

end Cascade

section Delete

variable {schema rows p} {left : List (Row τ κ ν)} {r : Row τ κ ν}

theorem doomed_eq_of_leaf (h : ∀ f ∈ schema, f.onDelete = .cascade → ∀ q, p q = true →
    q.table ≠ f.parent) :
    doomed schema rows p = p := by
  apply Function.iterate_fixed
  funext r
  rw [cascade, Bool.or_eq_left_iff_imp, List.any_eq_true]
  rintro ⟨q, -, hq⟩
  rw [Bool.and_eq_true, linked, List.any_eq_true] at hq
  obtain ⟨hpq, f, hf, hlink⟩ := hq
  simp only [Reference.links, Bool.and_eq_true, decide_eq_true_eq] at hlink
  exact absurd hlink.2.1.1.2 (h f hf hlink.1 q hpq)

theorem restricted_eq_false : restricted schema rows p = false ↔ ∀ r ∈ rows, ∀ q ∈ rows,
    doomed schema rows p q = true → linked schema .restrict r q = false := by
  simp [restricted]

theorem detach_eq_self {gone : Row τ κ ν → Bool}
    (h : ∀ f ∈ schema, f.onDelete = .setNull → f.child ≠ r.table) :
    detach schema rows gone r = r := by
  obtain ⟨table, values⟩ := r
  rw [detach, Row.mk.injEq, List.filter_eq_self]
  refine ⟨rfl, ?_⟩
  intro v _
  simp only [Bool.not_eq_true', List.any_eq_false, Bool.and_eq_true, decide_eq_true_eq, not_and,
    List.any_eq_true, not_exists, Reference.links]
  rintro f hf ⟨hnull, -⟩ q - - ⟨⟨hchild, -⟩, -⟩
  exact absurd hchild.symm (h f hf hnull)

/-- In a table without references to set null the rows that do not go stay as they are. -/
theorem mem_deleteWhere (hleft : deleteWhere schema rows p = some left)
    (h : ∀ f ∈ schema, f.onDelete = .setNull → f.child ≠ r.table) :
    r ∈ left ↔ r ∈ rows ∧ doomed schema rows p r = false := by
  rw [deleteWhere, Option.ite_none_left_eq_some] at hleft
  obtain ⟨-, hleft⟩ := hleft
  rw [← Option.some.inj hleft, List.mem_map]
  constructor
  · rintro ⟨q, hq, rfl⟩
    rw [detach_eq_self (r := q) h]
    simpa using hq
  · rintro ⟨hr, hstays⟩
    exact ⟨r, by simp [hr, hstays], detach_eq_self h⟩

theorem deleteWhere_eq_none :
    deleteWhere schema rows p = none ↔ restricted schema rows p = true := by
  simp [deleteWhere]

end Delete

end Relational
