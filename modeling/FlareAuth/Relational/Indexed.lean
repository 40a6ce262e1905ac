import FlareAuth.Relational.Table

/-!
# Rows under a partial unique index

A partial index gives some rows a key, each key to one row at most. An insert puts a row
under its key, an update moves a row from its key or leaves it there, and no other key is
concerned.
-/

namespace Relational

variable {α κ : Type} [DecidableEq κ] {index : α → Option κ} {rows : List α} {r : α} {k : κ}

def under (index : α → Option κ) (k : κ) (rows : List α) : Option α :=
  rows.find? fun r => decide (index r = some k)

theorem mem_of_under (h : under index k rows = some r) : r ∈ rows := List.mem_of_find?_eq_some h

theorem index_of_under (h : under index k rows = some r) : index r = some k := by
  simpa using List.find?_some h

theorem under_eq_none : under index k rows = none ↔ ∀ r ∈ rows, index r ≠ some k := by
  simp [under, List.find?_eq_none]

theorem under_of_mem (hunique : (rows.filterMap index).Nodup) (hr : r ∈ rows)
    (hk : index r = some k) : under index k rows = some r := by
  cases hfound : under index k rows with
  | none => exact absurd hk (under_eq_none.mp hfound r hr)
  | some q =>
    rw [eq_of_some_key_eq hunique (mem_of_under hfound) hr (index_of_under hfound) hk]

/-- An insert under a free key keeps the index. -/
theorem nodup_index_append (hunique : (rows.filterMap index).Nodup)
    (hfree : ∀ k, index r = some k → under index k rows = none) :
    ((rows ++ [r]).filterMap index).Nodup := by
  rw [List.filterMap_append, List.nodup_append]
  refine ⟨hunique, ?_, fun k hk l hl hsame => ?_⟩
  · cases hindex : index r with
    | none => simp [hindex]
    | some k => simp [hindex]
  · obtain ⟨q, hq, hqk⟩ := List.mem_filterMap.mp hk
    obtain ⟨r', hr', hrl⟩ := List.mem_filterMap.mp hl
    obtain rfl := List.mem_singleton.mp hr'
    rw [← hsame] at hrl
    exact under_eq_none.mp (hfree k hrl) q hq hqk

theorem under_append_self (hfree : under index k rows = none) (hk : index r = some k) :
    under index k (rows ++ [r]) = some r := by
  rw [under, List.find?_append, ← under, hfree]
  simp [hk]

theorem under_append_of_ne (hk : index r ≠ some k) :
    under index k (rows ++ [r]) = under index k rows := by
  rw [under, List.find?_append, ← under]
  simp [hk]

variable {p : α → Bool} {f : α → α}

omit [DecidableEq κ] in
/-- Updates that agree on the rows which they select. -/
theorem updateWhere_congr {f' : α → α} (h : ∀ r ∈ rows, p r = true → f r = f' r) :
    updateWhere p f rows = updateWhere p f' rows := by
  apply List.map_congr_left
  intro r hr
  by_cases hp : p r = true
  · rw [if_pos hp, if_pos hp, h r hr hp]
  · rw [if_neg hp, if_neg hp]

omit [DecidableEq κ] in
/-- An update that leaves the rows under their keys keeps the index. -/
theorem filterMap_updateWhere_index (hf : ∀ r ∈ rows, p r = true → index (f r) = index r) :
    (updateWhere p f rows).filterMap index = rows.filterMap index := by
  rw [updateWhere, List.filterMap_map]
  apply List.filterMap_congr
  intro r hr
  by_cases hp : p r = true
  · rw [Function.comp_apply, if_pos hp, hf r hr hp]
  · rw [Function.comp_apply, if_neg hp]

theorem under_updateWhere (hf : ∀ r ∈ rows, p r = true → index (f r) = index r) :
    under index k (updateWhere p f rows) =
      (under index k rows).map fun r => if p r then f r else r := by
  induction rows with
  | nil => rfl
  | cons r rows ih =>
    have hrest := ih fun q hq => hf q (List.mem_cons_of_mem r hq)
    have hhead : index (if p r then f r else r) = index r := by
      by_cases hp : p r = true
      · rw [if_pos hp, hf r List.mem_cons_self hp]
      · rw [if_neg hp]
    rw [updateWhere, List.map_cons, ← updateWhere]
    by_cases hk : index r = some k
    · simp [under, hhead, hk]
    · simpa [under, hhead, hk] using hrest

omit [DecidableEq κ] in
/-- An update that takes rows from the index keeps it. -/
theorem nodup_index_removed (hunique : (rows.filterMap index).Nodup)
    (hf : ∀ r ∈ rows, p r = true → index (f r) = none) :
    ((updateWhere p f rows).filterMap index).Nodup := by
  have hsub : ((updateWhere p f rows).filterMap index).Sublist (rows.filterMap index) := by
    clear hunique
    induction rows with
    | nil => exact .slnil
    | cons r rows ih =>
      have hrest := ih fun q hq => hf q (List.mem_cons_of_mem r hq)
      rw [updateWhere, List.map_cons, ← updateWhere]
      by_cases hp : p r = true
      · rw [if_pos hp, List.filterMap_cons_none (hf r List.mem_cons_self hp)]
        exact hrest.trans ((List.sublist_cons_self r rows).filterMap index)
      · rw [if_neg hp]
        cases hindex : index r with
        | none =>
          rw [List.filterMap_cons_none hindex, List.filterMap_cons_none hindex]
          exact hrest
        | some k =>
          rw [List.filterMap_cons_some hindex, List.filterMap_cons_some hindex]
          exact hrest.cons_cons k
  exact hunique.sublist hsub

theorem under_removed (hunique : (rows.filterMap index).Nodup)
    (hf : ∀ r ∈ rows, p r = true → index (f r) = none) :
    under index k (updateWhere p f rows) = (under index k rows).filter fun r => !p r := by
  have hkept := nodup_index_removed hunique hf
  cases hfound : under index k rows with
  | none =>
    rw [Option.filter_none, under_eq_none]
    intro q hq hqk
    obtain ⟨r, hr, rfl⟩ := mem_updateWhere.mp hq
    by_cases hp : p r = true
    · rw [if_pos hp, hf r hr hp] at hqk
      cases hqk
    · rw [if_neg hp] at hqk
      exact under_eq_none.mp hfound r hr hqk
  | some r =>
    have hr := mem_of_under hfound
    have hrk := index_of_under hfound
    by_cases hp : p r = true
    · rw [Option.filter_some, if_neg (by simp [hp]), under_eq_none]
      intro q hq hqk
      obtain ⟨q₀, hq₀, rfl⟩ := mem_updateWhere.mp hq
      by_cases hp₀ : p q₀ = true
      · rw [if_pos hp₀, hf q₀ hq₀ hp₀] at hqk
        cases hqk
      · rw [if_neg hp₀] at hqk
        have hsame : q₀ = r := eq_of_some_key_eq hunique hq₀ hr hqk hrk
        exact hp₀ (hsame ▸ hp)
    · rw [Option.filter_some, if_pos (by simp [hp])]
      exact under_of_mem hkept (mem_updateWhere_of_not hr (by simpa using hp)) hrk

end Relational
