import FlareAuth.Relational.Table
import Mathlib.Data.List.Chain
import Mathlib.Data.List.Forall2

/-!
# Lines of descent

Rows that name their parent, in groups that are stored in the order in which their rows came.
A group is a line when only its first row has no parent and each later row has the one before it
for its parent, which is spent by then. A row is added by starting a new group or by spending the
last row of one, so a line never forks and only its last row may be unspent.
-/

namespace Relational

variable {α κ γ : Type} (key : α → κ) (parent : α → Option κ) (spent : α → Bool)

/-- The second row descends from the first one, which is spent. -/
def Descends (r q : α) : Prop := parent q = some (key r) ∧ spent r = true

structure Lineage (rows : List α) : Prop where
  root : ∀ r, rows.head? = some r → parent r = none
  chain : rows.IsChain (Descends key parent spent)

/-- A later version of a row, with the key and the parent it had and spent if it was. -/
structure Ages (old new : α) : Prop where
  key : key new = key old
  parent : parent new = parent old
  spent : spent old = true → spent new = true

namespace Lineage

variable {key parent spent} {rows rows' : List α} {r q : α}

theorem nil : Lineage key parent spent [] := ⟨nofun, List.isChain_nil⟩

theorem singleton (h : parent r = none) : Lineage key parent spent [r] := by
  refine ⟨fun q hq => ?_, List.isChain_singleton r⟩
  obtain rfl : r = q := Option.some.inj hq
  exact h

theorem chain_ages (h : rows.IsChain (Descends key parent spent))
    (hages : List.Forall₂ (Ages key parent spent) rows rows') :
    rows'.IsChain (Descends key parent spent) := by
  induction hages with
  | nil => exact List.isChain_nil
  | cons hr hrest ih =>
    cases hrest with
    | nil => exact List.isChain_singleton _
    | cons hq _ =>
      obtain ⟨hrq, hchain⟩ := List.isChain_cons_cons.mp h
      refine List.isChain_cons_cons.mpr ⟨⟨?_, hr.spent hrq.2⟩, ih hchain⟩
      rw [hq.parent, hr.key, hrq.1]

theorem ages (h : Lineage key parent spent rows)
    (hages : List.Forall₂ (Ages key parent spent) rows rows') :
    Lineage key parent spent rows' := by
  refine ⟨fun q hq => ?_, chain_ages h.chain hages⟩
  cases hages with
  | nil => cases hq
  | cons hr _ =>
    obtain rfl := Option.some.inj hq
    rw [hr.parent]
    exact h.root _ rfl

theorem append (h : Lineage key parent spent rows) (hlast : rows.getLast? = some r)
    (hq : Descends key parent spent r q) : Lineage key parent spent (rows ++ [q]) := by
  have hne : rows ≠ [] := by
    rintro rfl
    cases hlast
  constructor
  · intro p hp
    rw [List.head?_append_of_ne_nil _ hne] at hp
    exact h.root p hp
  · rw [List.isChain_append]
    refine ⟨h.chain, List.isChain_singleton q, fun x hx y hy => ?_⟩
    obtain rfl : r = x := Option.some.inj (hlast.symm.trans hx)
    obtain rfl : q = y := Option.some.inj hy
    exact hq

/-- A row which is not spent has nothing after it. -/
theorem getLast_of_not_spent (h : Lineage key parent spent rows) (hr : r ∈ rows)
    (hspent : spent r = false) : rows.getLast? = some r := by
  obtain ⟨before, after, rfl⟩ := List.append_of_mem hr
  cases after with
  | nil => simp
  | cons q after =>
    have hdescends : Descends key parent spent r q :=
      (List.isChain_append_cons_cons.mp h.chain).2.1
    rw [hdescends.2] at hspent
    cases hspent

/-- No two rows of a line are unspent. -/
theorem eq_of_not_spent (h : Lineage key parent spent rows) (hr : r ∈ rows) (hq : q ∈ rows)
    (hrspent : spent r = false) (hqspent : spent q = false) : r = q := by
  have hlast := h.getLast_of_not_spent hr hrspent
  rw [h.getLast_of_not_spent hq hqspent] at hlast
  exact (Option.some.inj hlast).symm

/-- The parent of a row is a row of the line, and spent. -/
theorem exists_parent (h : Lineage key parent spent rows) (hq : q ∈ rows) {k : κ}
    (hk : parent q = some k) : ∃ r ∈ rows, key r = k ∧ spent r = true := by
  obtain ⟨before, after, rfl⟩ := List.append_of_mem hq
  rcases List.eq_nil_or_concat before with rfl | ⟨earlier, r, rfl⟩
  · have hnone := h.root q rfl
    rw [hk] at hnone
    cases hnone
  · rw [List.concat_eq_append, List.append_assoc, List.singleton_append] at h
    have hrq : Descends key parent spent r q := (List.isChain_append_cons_cons.mp h.chain).2.1
    refine ⟨r, by simp, ?_, hrq.2⟩
    exact Option.some.inj (hrq.1.symm.trans hk)

/-- A line that is not empty begins with a row without a parent. -/
theorem exists_root (h : Lineage key parent spent rows) (hr : r ∈ rows) :
    ∃ q ∈ rows, parent q = none := by
  cases rows with
  | nil => cases hr
  | cons q rows => exact ⟨q, List.mem_cons_self, h.root q rfl⟩

end Lineage

section Groups

variable (group : α → γ) [DecidableEq γ]

/-- Each group of a table is a line. -/
def Lineages (rows : List α) : Prop :=
  ∀ g, Lineage key parent spent (rows.filter fun r => group r = g)

variable {key parent spent group} {rows rows' : List α} {p : α → Bool} {f : α → α} {r q c : α}

theorem lineages_nil : Lineages key parent spent group [] := fun _ => .nil

/-- The first row of a new group. -/
theorem Lineages.start (h : Lineages key parent spent group rows)
    (hnew : ∀ r ∈ rows, group r ≠ group c) (hc : parent c = none) :
    Lineages key parent spent group (rows ++ [c]) := by
  intro g
  rw [List.filter_append]
  by_cases hg : group c = g
  · subst hg
    have hnone : (rows.filter fun r => group r = group c) = [] := by
      rw [List.filter_eq_nil_iff]
      intro r hr
      simpa using hnew r hr
    rw [hnone]
    simpa using Lineage.singleton hc
  · simpa [hg] using h g

theorem forall₂_filter {E : α → α → Prop} (hE : ∀ r q, E r q → group q = group r)
    (h : List.Forall₂ E rows rows') (g : γ) :
    List.Forall₂ E (rows.filter fun r => group r = g) (rows'.filter fun r => group r = g) := by
  induction h with
  | nil => exact .nil
  | @cons r q _ _ hrq _ ih =>
    have hgroup := hE r q hrq
    by_cases hg : group r = g
    · rw [List.filter_cons_of_pos (by simpa using hg),
        List.filter_cons_of_pos (by simpa [hgroup] using hg)]
      exact .cons hrq ih
    · rw [List.filter_cons_of_neg (by simpa using hg),
        List.filter_cons_of_neg (by simpa [hgroup] using hg)]
      exact ih

theorem Lineages.ages (h : Lineages key parent spent group rows)
    (hages : List.Forall₂ (fun r q => Ages key parent spent r q ∧ group q = group r) rows rows') :
    Lineages key parent spent group rows' := by
  intro g
  exact (h g).ages ((forall₂_filter (fun _ _ hrq => hrq.2) hages g).imp fun _ _ hrq => hrq.1)

theorem Evolves.forall₂ {E : α → α → Prop} (h : Evolves E rows rows')
    (hlength : rows'.length = rows.length) : List.Forall₂ E rows rows' := by
  induction rows generalizing rows' with
  | nil =>
    obtain rfl := List.length_eq_zero_iff.mp hlength
    exact .nil
  | cons r rows ih =>
    cases rows' with
    | nil => exact h.elim
    | cons q rows' => exact .cons h.1 (ih h.2 (by simpa using hlength))

/-- Spending the one unspent row that an update selects, with a successor of it. -/
theorem Lineages.succeed (h : Lineages key parent spent group rows) (hr : r ∈ rows)
    (hunspent : spent r = false) (hp : p r = true) (hpc : p c = false)
    (hf : ∀ r, Ages key parent spent r (f r) ∧ spent (f r) = true ∧ group (f r) = group r)
    (hc : parent c = some (key r)) (hcgroup : group c = group r) :
    Lineages key parent spent group (updateWhere p f (rows ++ [c])) := by
  have hages : List.Forall₂ (fun r q => Ages key parent spent r q ∧ group q = group r) rows
      (updateWhere p f rows) := by
    rw [updateWhere, List.forall₂_map_right_iff, List.forall₂_same]
    intro r _
    by_cases hpr : p r = true
    · rw [if_pos hpr]
      exact ⟨(hf r).1, (hf r).2.2⟩
    · rw [if_neg hpr]
      exact ⟨⟨rfl, rfl, fun h => h⟩, rfl⟩
  have hsplit : updateWhere p f (rows ++ [c]) = updateWhere p f rows ++ [c] := by
    simp [updateWhere, hpc]
  rw [hsplit]
  intro g
  rw [List.filter_append]
  by_cases hg : group c = g
  · have hlast := (h g).getLast_of_not_spent (by simp [hr, ← hg, hcgroup]) hunspent
    have hlast' : ((updateWhere p f rows).filter fun r => group r = g).getLast? = some (f r) := by
      have hcomm : ((fun r => decide (group r = g)) ∘ fun r => if p r = true then f r else r) =
          fun r => decide (group r = g) := by
        funext r
        by_cases hpr : p r = true <;> simp [hpr, (hf r).2.2]
      rw [updateWhere, List.filter_map, hcomm, List.getLast?_map, hlast]
      simp [hp]
    have hdescends : Descends key parent spent (f r) c :=
      ⟨by rw [hc, (hf r).1.key], (hf r).2.1⟩
    simpa [hg] using (h.ages hages g).append hlast' hdescends
  · simpa [hg] using h.ages hages g

end Groups

end Relational
