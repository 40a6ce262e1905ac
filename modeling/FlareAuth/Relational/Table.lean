import Mathlib.Data.List.Nodup
import Mathlib.Tactic.Common

/-!
# Tables as lists of rows

An update rewrites the rows it selects in place and an insert appends. A table
whose rows are never deleted therefore *evolves*: each of its rows is still at
its position later, related to what it was by whatever the updates preserve.
-/

namespace Relational

variable {α β : Type}

def updateWhere (p : α → Bool) (f : α → α) (rows : List α) : List α :=
  rows.map fun r => if p r then f r else r

def lookup [DecidableEq β] (key : α → β) (k : β) (rows : List α) : Option α :=
  rows.find? fun r => key r = k

/-- Replaces the row with the same key if the replacement is admissible, or appends. -/
def put [DecidableEq β] (key : α → β) (keeps : α → α → Bool) (row : α) (rows : List α) :
    List α :=
  if rows.any fun r => key r = key row then
    updateWhere (fun r => decide (key r = key row) && keeps r row) (fun _ => row) rows
  else rows ++ [row]

theorem mem_updateWhere {p : α → Bool} {f : α → α} {rows : List α} {r : α} :
    r ∈ updateWhere p f rows ↔ ∃ r₀ ∈ rows, (if p r₀ then f r₀ else r₀) = r := List.mem_map

theorem mem_updateWhere_of_not {p : α → Bool} {f : α → α} {rows : List α} {r : α}
    (h : r ∈ rows) (hp : p r = false) : r ∈ updateWhere p f rows :=
  mem_updateWhere.mpr ⟨r, h, by simp [hp]⟩

@[simp] theorem length_updateWhere (p : α → Bool) (f : α → α) (rows : List α) :
    (updateWhere p f rows).length = rows.length := List.length_map _

theorem mem_updateWhere_of {p : α → Bool} {f : α → α} {rows : List α} {r : α} (h : r ∈ rows)
    (hp : p r = true) : f r ∈ updateWhere p f rows := mem_updateWhere.mpr ⟨r, h, if_pos hp⟩

/-- The largest number of a list is bounded by what bounds them all. -/
theorem foldr_max_le {l : List ℕ} {m : ℕ} : l.foldr max 0 ≤ m ↔ ∀ x ∈ l, x ≤ m := by
  induction l with
  | nil => simp
  | cons x xs ih => rw [List.foldr_cons, Nat.max_le, ih, List.forall_mem_cons]

/-- An update that writes what is there changes nothing. -/
theorem updateWhere_eq_self {p : α → Bool} {f : α → α} {rows : List α}
    (h : ∀ r ∈ rows, p r = true → f r = r) : updateWhere p f rows = rows := by
  have hmap : updateWhere p f rows = rows.map id := by
    refine List.map_congr_left fun r hr => ?_
    by_cases hp : p r
    · rw [if_pos hp, h r hr hp, id]
    · rw [if_neg hp, id]
  rw [hmap, List.map_id]

/-- A change of rows that a filter leaves out, and only of these, does not show behind it. -/
theorem find?_eq_some_of_unique {p : α → Bool} {rows : List α} {r : α} (hr : r ∈ rows)
    (hp : p r = true) (h : ∀ q ∈ rows, p q = true → q = r) : rows.find? p = some r := by
  cases hfound : rows.find? p with
  | none => exact absurd hp (List.find?_eq_none.mp hfound r hr)
  | some q => rw [h q (List.mem_of_find?_eq_some hfound) (List.find?_some hfound)]

theorem filter_map_of_fixed {q : α → Bool} {f : α → α} {rows : List α}
    (h : ∀ r ∈ rows, q (f r) = q r ∧ (q r = true → f r = r)) :
    (rows.map f).filter q = rows.filter q := by
  induction rows with
  | nil => rfl
  | cons r rows ih =>
    obtain ⟨hq, hf⟩ := h r List.mem_cons_self
    have hrest := ih fun r' hr' => h r' (List.mem_cons_of_mem r hr')
    rw [List.map_cons]
    by_cases hr : q r = true
    · rw [List.filter_cons_of_pos hr, List.filter_cons_of_pos (hq.trans hr), hf hr, hrest]
    · rw [List.filter_cons_of_neg hr, List.filter_cons_of_neg (hq ▸ hr), hrest]

theorem filter_updateWhere {p q : α → Bool} {f : α → α} {rows : List α}
    (h : ∀ r ∈ rows, p r = true → q r = false ∧ q (f r) = false) :
    (updateWhere p f rows).filter q = rows.filter q := by
  refine filter_map_of_fixed fun r hr => ?_
  by_cases hp : p r = true
  · obtain ⟨hq, hqf⟩ := h r hr hp
    rw [if_pos hp, hq, hqf]
    exact ⟨rfl, fun h => nomatch h⟩
  · rw [if_neg hp]
    exact ⟨rfl, fun _ => rfl⟩

theorem map_updateWhere {p : α → Bool} {f : α → α} (key : α → β)
    (hf : ∀ r, p r = true → key (f r) = key r) (rows : List α) :
    (updateWhere p f rows).map key = rows.map key := by
  rw [updateWhere, List.map_map]
  refine List.map_congr_left fun r _ => ?_
  by_cases h : p r
  · simp only [Function.comp_apply, if_pos h, hf r h]
  · simp only [Function.comp_apply, if_neg h]

/-- The same update on what a map keeps of each row. -/
theorem updateWhere_map (g : α → β) {p : α → Bool} {q : β → Bool} {f : α → α} {h : β → β}
    {rows : List α} (hq : ∀ r, q (g r) = p r) (hh : ∀ r, h (g r) = g (f r)) :
    updateWhere q h (rows.map g) = (updateWhere p f rows).map g := by
  rw [updateWhere, updateWhere, List.map_map, List.map_map]
  refine List.map_congr_left fun r _ => ?_
  simp only [Function.comp_apply, hq, hh]
  exact (apply_ite g (p r) (f r) r).symm

theorem nodup_map_updateWhere {p : α → Bool} {f : α → α} {key : α → β} {rows : List α}
    (hf : ∀ r, p r = true → key (f r) = key r) (h : (rows.map key).Nodup) :
    ((updateWhere p f rows).map key).Nodup := by
  rwa [map_updateWhere key hf]

theorem nodup_map_append_singleton {key : α → β} {rows : List α} {r : α}
    (h : (rows.map key).Nodup) (hnew : ∀ q ∈ rows, key q ≠ key r) :
    ((rows ++ [r]).map key).Nodup := by
  rw [List.map_append, List.nodup_append]
  refine ⟨h, List.nodup_singleton _, fun a ha b hb => ?_⟩
  obtain ⟨q, hq, rfl⟩ := List.mem_map.mp ha
  obtain rfl : b = key r := by simpa using hb
  exact hnew q hq

/-- A partial unique index still holds after an update of rows under one key, if no other row has
what the update writes. -/
theorem nodup_filterMap_updateWhere {γ : Type} {p : α → Bool} {f : α → α} {key : α → β}
    {index : α → Option γ} {rows : List α} (hkeys : (rows.map key).Nodup)
    (hindex : (rows.filterMap index).Nodup)
    (hone : ∀ r ∈ rows, ∀ q ∈ rows, p r = true → p q = true → key r = key q)
    (hfree : ∀ r ∈ rows, ∀ q ∈ rows, p r = true → ∀ k, index (f r) = some k →
      index q = some k → key q = key r) :
    ((updateWhere p f rows).filterMap index).Nodup := by
  have hdistinct := List.pairwise_map.mp hkeys
  have hrows := List.pairwise_filterMap.mp hindex
  unfold updateWhere
  rw [List.filterMap_map]
  refine List.pairwise_filterMap.mpr ?_
  refine List.Pairwise.imp_of_mem ?_ (hdistinct.and hrows)
  rintro r q hr hq ⟨hne, hrq⟩ k hk l hl rfl
  by_cases hpr : p r = true
  · by_cases hpq : p q = true
    · exact hne (hone r hr q hq hpr hpq)
    · simp only [Function.comp_apply, if_pos hpr, if_neg hpq] at hk hl
      exact hne (hfree r hr q hq hpr _ hk hl).symm
  · by_cases hpq : p q = true
    · simp only [Function.comp_apply, if_neg hpr, if_pos hpq] at hk hl
      exact hne (hfree q hq r hr hpq _ hl hk)
    · simp only [Function.comp_apply, if_neg hpr, if_neg hpq] at hk hl
      exact hrq _ hk _ hl rfl

/-- A row stays in the table, or the written row with its key takes its place. -/
theorem mem_put_of_mem [DecidableEq β] {key : α → β} {keeps : α → α → Bool} {row r : α}
    {rows : List α} (h : r ∈ rows) :
    r ∈ put key keeps row rows ∨ row ∈ put key keeps row rows ∧ key r = key row := by
  unfold put
  split
  · by_cases hr : (decide (key r = key row) && keeps r row) = true
    · refine .inr ⟨mem_updateWhere.mpr ⟨r, h, if_pos hr⟩, ?_⟩
      rw [Bool.and_eq_true, decide_eq_true_eq] at hr
      exact hr.1
    · exact .inl (mem_updateWhere_of_not h (Bool.eq_false_iff.mpr hr))
  · exact .inl (List.mem_append_left _ h)

section Lookup

variable [DecidableEq β] {key : α → β} {k : β} {rows : List α} {r : α}

theorem mem_of_lookup (h : lookup key k rows = some r) : r ∈ rows := List.mem_of_find?_eq_some h

theorem key_of_lookup (h : lookup key k rows = some r) : key r = k := by
  simpa using List.find?_some h

theorem lookup_of_mem (hnodup : (rows.map key).Nodup) (h : r ∈ rows) :
    lookup key (key r) rows = some r := by
  induction rows with
  | nil => simp at h
  | cons q rows ih =>
    rw [List.map_cons, List.nodup_cons] at hnodup
    rcases List.mem_cons.mp h with rfl | h
    · simp [lookup]
    · have hne : key q ≠ key r := fun heq => hnodup.1 (heq ▸ List.mem_map_of_mem h)
      simpa [lookup, hne] using ih hnodup.2 h

theorem eq_of_key_eq (hnodup : (rows.map key).Nodup) {q : α} (hr : r ∈ rows) (hq : q ∈ rows)
    (h : key r = key q) : r = q := by
  have hfound := lookup_of_mem hnodup hr
  rw [h, lookup_of_mem hnodup hq] at hfound
  exact (Option.some.inj hfound).symm

omit [DecidableEq β] in
/-- Rows under the same key of a partial unique index are equal. -/
theorem eq_of_some_key_eq {index : α → Option β} (hnodup : (rows.filterMap index).Nodup) {q : α}
    (hr : r ∈ rows) (hq : q ∈ rows) {k : β} (hrk : index r = some k) (hqk : index q = some k) :
    r = q := by
  induction rows with
  | nil => cases hr
  | cons p rows ih =>
    have hlater : ∀ {x}, x ∈ rows → index x = some k → index p = some k → False := by
      intro x hx hxk hpk
      rw [List.filterMap_cons_some hpk, List.nodup_cons] at hnodup
      exact hnodup.1 (List.mem_filterMap.mpr ⟨x, hx, hxk⟩)
    have hrest : (rows.filterMap index).Nodup :=
      hnodup.sublist ((List.sublist_cons_self p rows).filterMap index)
    rcases List.mem_cons.mp hr with rfl | hr'
    · rcases List.mem_cons.mp hq with rfl | hq'
      · rfl
      · exact (hlater hq' hqk hrk).elim
    · rcases List.mem_cons.mp hq with rfl | hq'
      · exact (hlater hr' hrk hqk).elim
      · exact ih hrest hr' hq'

theorem lookup_isSome_of_mem (h : r ∈ rows) : ∃ q, lookup key (key r) rows = some q := by
  rw [← Option.isSome_iff_exists, lookup, List.find?_isSome]
  exact ⟨r, h, by simp⟩

variable (key) in
/-- An update that keeps the key rewrites the row with a key or leaves it. -/
theorem lookup_updateWhere {p : α → Bool} {f : α → α} (hf : ∀ q, key (f q) = key q)
    (h : lookup key k rows = some r) :
    lookup key k (updateWhere p f rows) = some (if p r then f r else r) := by
  induction rows with
  | nil => simp [lookup] at h
  | cons q rows ih =>
    have hkey : key (if p q then f q else q) = key q := by
      split
      · exact hf q
      · rfl
    by_cases hq : key q = k
    · obtain rfl : q = r := by simpa [lookup, hq] using h
      simp [lookup, updateWhere, hkey, hq]
    · have hrest : lookup key k rows = some r := by simpa [lookup, hq] using h
      have hfound := ih hrest
      simpa [lookup, updateWhere, hkey, hq] using hfound

end Lookup

/-- The rows of the first table persist in the second, each at its position and related to
what it was. -/
def Evolves (E : α → α → Prop) : List α → List α → Prop
  | [], _ => True
  | _ :: _, [] => False
  | r :: rows, r' :: rows' => E r r' ∧ Evolves E rows rows'

namespace Evolves

variable {E : α → α → Prop} {rows rows' rows'' : List α}

theorem append (hE : ∀ r, E r r) (rows new : List α) : Evolves E rows (rows ++ new) := by
  induction rows with
  | nil => exact trivial
  | cons r rows ih => exact ⟨hE r, ih⟩

theorem refl (hE : ∀ r, E r r) (rows : List α) : Evolves E rows rows := by
  simpa only [List.append_nil] using append hE rows []

theorem map {f : α → α} (h : ∀ r ∈ rows, E r (f r)) : Evolves E rows (rows.map f) := by
  induction rows with
  | nil => exact trivial
  | cons r rows ih =>
    exact ⟨h r List.mem_cons_self, ih fun q hq => h q (List.mem_cons_of_mem _ hq)⟩

theorem updateWhere {p : α → Bool} {f : α → α} (hE : ∀ r, E r r)
    (hf : ∀ r ∈ rows, p r = true → E r (f r)) : Evolves E rows (updateWhere p f rows) := by
  refine .map fun r hr => ?_
  by_cases h : p r
  · simpa only [if_pos h] using hf r hr h
  · simpa only [if_neg h] using hE r

theorem put [DecidableEq β] {key : α → β} {keeps : α → α → Bool} (hE : ∀ r, E r r) (row : α)
    (hkeeps : ∀ r, key r = key row → keeps r row = true → E r row) (rows : List α) :
    Evolves E rows (put key keeps row rows) := by
  unfold Relational.put
  split
  · refine updateWhere hE fun r _ h => ?_
    rw [Bool.and_eq_true, decide_eq_true_eq] at h
    exact hkeeps r h.1 h.2
  · exact append hE rows [row]

theorem trans (hE : ∀ r s t, E r s → E s t → E r t) (h : Evolves E rows rows')
    (h' : Evolves E rows' rows'') : Evolves E rows rows'' := by
  induction rows generalizing rows' rows'' with
  | nil => exact trivial
  | cons r rows ih =>
    cases rows' with
    | nil => exact h.elim
    | cons r' rows' =>
      cases rows'' with
      | nil => exact h'.elim
      | cons r'' rows'' => exact ⟨hE _ _ _ h.1 h'.1, ih h.2 h'.2⟩

theorem mono {F : α → α → Prop} (h : Evolves E rows rows') (hEF : ∀ r s, E r s → F r s) :
    Evolves F rows rows' := by
  induction rows generalizing rows' with
  | nil => exact trivial
  | cons r rows ih =>
    cases rows' with
    | nil => exact h.elim
    | cons r' rows' => exact ⟨hEF _ _ h.1, ih h.2⟩

theorem exists_of_mem (h : Evolves E rows rows') {r : α} (hr : r ∈ rows) :
    ∃ r' ∈ rows', E r r' := by
  induction rows generalizing rows' with
  | nil => simp at hr
  | cons q rows ih =>
    cases rows' with
    | nil => exact h.elim
    | cons q' rows' =>
      rcases List.mem_cons.mp hr with rfl | hr
      · exact ⟨q', List.mem_cons_self, h.1⟩
      · obtain ⟨r', hr', hE⟩ := ih h.2 hr
        exact ⟨r', List.mem_cons_of_mem _ hr', hE⟩

/-- A table that did not grow holds later versions of its old rows only. -/
theorem exists_of_mem_later (h : Evolves E rows rows') (hlength : rows'.length = rows.length)
    {r' : α} (hr : r' ∈ rows') : ∃ r ∈ rows, E r r' := by
  induction rows generalizing rows' with
  | nil =>
    obtain rfl : rows' = [] := List.length_eq_zero_iff.mp hlength
    simp at hr
  | cons q rows ih =>
    cases rows' with
    | nil => exact h.elim
    | cons q' rows' =>
      rcases List.mem_cons.mp hr with rfl | hr
      · exact ⟨q, List.mem_cons_self, h.1⟩
      · have hlength' : rows'.length = rows.length := by simpa using hlength
        obtain ⟨r, hr, hE⟩ := ih h.2 hlength' hr
        exact ⟨r, List.mem_cons_of_mem _ hr, hE⟩

/-- A column that no update writes is the same in a table that did not grow. -/
theorem map_eq {key : α → β} (h : Evolves E rows rows') (hkey : ∀ r s, E r s → key s = key r)
    (hlength : rows'.length = rows.length) : rows'.map key = rows.map key := by
  induction rows generalizing rows' with
  | nil =>
    obtain rfl : rows' = [] := List.length_eq_zero_iff.mp hlength
    rfl
  | cons q rows ih =>
    cases rows' with
    | nil => exact h.elim
    | cons q' rows' =>
      have hlength' : rows'.length = rows.length := by simpa using hlength
      rw [List.map_cons, List.map_cons, hkey _ _ h.1, ih h.2 hlength']

/-- The row with a key stays the row with that key. -/
theorem lookup [DecidableEq β] {key : α → β} {k : β} {r : α} (h : Evolves E rows rows')
    (hkey : ∀ r s, E r s → key s = key r) (hr : lookup key k rows = some r) :
    ∃ r', Relational.lookup key k rows' = some r' ∧ E r r' := by
  induction rows generalizing rows' with
  | nil => simp [Relational.lookup] at hr
  | cons q rows ih =>
    cases rows' with
    | nil => exact h.elim
    | cons q' rows' =>
      by_cases hq : key q = k
      · obtain rfl : q = r := by simpa [Relational.lookup, hq] using hr
        exact ⟨q', by simp [Relational.lookup, hkey _ _ h.1, hq], h.1⟩
      · have hq' : key q' ≠ k := by rwa [hkey _ _ h.1]
        have hr' : Relational.lookup key k rows = some r := by
          simpa [Relational.lookup, hq] using hr
        obtain ⟨r', hfound, hE⟩ := ih h.2 hr'
        exact ⟨r', by simpa [Relational.lookup, hq'] using hfound, hE⟩

/-- With unique keys a row that is still there is the later version of what it was. -/
theorem of_mem_of_key_eq {key : α → β} {r r' : α} (h : Evolves E rows rows')
    (hkey : ∀ r s, E r s → key s = key r) (hnodup : (rows'.map key).Nodup) (hr : r ∈ rows)
    (hr' : r' ∈ rows') (heq : key r' = key r) : E r r' := by
  classical
  obtain ⟨q, hq, hE⟩ := h.exists_of_mem hr
  obtain rfl := eq_of_key_eq hnodup hr' hq (heq.trans (hkey _ _ hE).symm)
  exact hE

end Evolves

end Relational
