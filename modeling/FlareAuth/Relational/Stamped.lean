import FlareAuth.Relational.Table

/-!
# Tables whose rows bear stamps

A statement inserts a row under a new key, updates rows in place or deletes rows.
The rows it writes are those of one key and bear one stamp.
-/

namespace Relational

variable {α β ν : Type}

/-- What a statement that writes rows with a stamp makes of a table. -/
inductive Stamped (key : α → β) (stampOf : α → ν) (stamp : Option (β × ν)) (rows : List α) :
    List α → Prop
  | same : Stamped key stampOf stamp rows rows
  | insert {r : α} (hnew : ∀ q ∈ rows, key q ≠ key r)
      (hstamp : stamp = some (key r, stampOf r)) : Stamped key stampOf stamp rows (rows ++ [r])
  | update {p : α → Bool} {f : α → α} (hkey : ∀ r, key (f r) = key r)
      (hstamp : ∀ r ∈ rows, p r = true → stamp = some (key r, stampOf (f r))) :
      Stamped key stampOf stamp rows (updateWhere p f rows)
  | delete (p : α → Bool) : Stamped key stampOf stamp rows (rows.filter p)

namespace Stamped

variable {key : α → β} {stampOf : α → ν} {stamp : Option (β × ν)} {rows rows' : List α}

theorem nodup (h : Stamped key stampOf stamp rows rows') (hkeys : (rows.map key).Nodup) :
    (rows'.map key).Nodup := by
  cases h with
  | same => exact hkeys
  | insert hnew _ => exact nodup_map_append_singleton hkeys hnew
  | update hkey _ => exact nodup_map_updateWhere (fun r _ => hkey r) hkeys
  | delete p => exact hkeys.sublist (List.filter_sublist.map _)

/-- A row that was not there bears the stamp. -/
theorem of_mem (h : Stamped key stampOf stamp rows rows') {r : α} (hr : r ∈ rows')
    (hnot : r ∉ rows) : stamp = some (key r, stampOf r) := by
  cases h with
  | same => exact absurd hr hnot
  | insert _ hstamp =>
    rcases List.mem_append.mp hr with hr | hr
    · exact absurd hr hnot
    · rw [List.mem_singleton.mp hr]
      exact hstamp
  | @update p f hkey hstamp =>
    obtain ⟨q, hq, hrow⟩ := mem_updateWhere.mp hr
    by_cases hp : p q = true
    · rw [if_pos hp] at hrow
      rw [← hrow, hkey]
      exact hstamp q hq hp
    · rw [if_neg hp] at hrow
      exact absurd (hrow ▸ hq) hnot
  | delete p => exact absurd (List.mem_filter.mp hr).1 hnot

/-- A key that has another row than before has one that bears the stamp. -/
theorem of_lookup [DecidableEq β] (h : Stamped key stampOf stamp rows rows')
    (hkeys : (rows.map key).Nodup) {k : β} {r : α} (hr : lookup key k rows' = some r)
    (hnot : lookup key k rows ≠ some r) : stamp = some (k, stampOf r) := by
  have hkey := key_of_lookup hr
  rw [← hkey] at hnot ⊢
  exact h.of_mem (mem_of_lookup hr) fun hin => hnot (lookup_of_mem hkeys hin)

end Stamped

/-- An update that gives the row of a key another stamp takes the row away. -/
theorem lookup_updateWhere_ne [DecidableEq β] {key : α → β} (stampOf : α → ν) {p : α → Bool}
    {f : α → α} {rows : List α} {k : β} {r : α} {stamp : ν} (hp : p r = true)
    (hstamp : ∀ q, stampOf (f q) = stamp) (hne : stampOf r ≠ stamp) :
    lookup key k (updateWhere p f rows) ≠ some r := by
  intro hr
  obtain ⟨q, _, hrow⟩ := mem_updateWhere.mp (mem_of_lookup hr)
  by_cases hq : p q = true
  · rw [if_pos hq] at hrow
    exact hne (hrow ▸ hstamp q)
  · rw [if_neg hq] at hrow
    exact hq (hrow ▸ hp)

/-- A deletion takes the rows away that it selects. -/
theorem lookup_filter_ne [DecidableEq β] {key : α → β} {p : α → Bool} {rows : List α} {k : β}
    {r : α} (hp : p r = true) : lookup key k (rows.filter fun q => !p q) ≠ some r := by
  intro hr
  have hkept := (List.mem_filter.mp (mem_of_lookup hr)).2
  rw [hp] at hkept
  cases hkept

section Selected

variable {p : α → Bool} {rows : List α}

/-- A statement reports whether its condition selected a row. -/
theorem selected_iff {ε : Type} :
    (Except.ok (!(rows.filter p).isEmpty) : Except ε Bool) = .ok true ↔ ∃ r ∈ rows, p r = true := by
  simp

theorem filter_of_unselected (h : ¬∃ r ∈ rows, p r = true) : rows.filter p = [] := by
  rw [List.filter_eq_nil_iff]
  exact fun r hr hp => h ⟨r, hr, hp⟩

theorem updateWhere_of_unselected (h : ¬∃ r ∈ rows, p r = true) (f : α → α) :
    updateWhere p f rows = rows :=
  updateWhere_eq_self fun r hr hp => absurd ⟨r, hr, hp⟩ h

theorem delete_of_unselected (h : ¬∃ r ∈ rows, p r = true) :
    (rows.filter fun r => !p r) = rows := by
  rw [List.filter_eq_self]
  intro r hr
  rw [Bool.not_eq_true', Bool.eq_false_iff]
  exact fun hp => h ⟨r, hr, hp⟩

end Selected

end Relational
