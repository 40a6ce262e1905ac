import Mathlib.Data.List.Perm.Basic
import Mathlib.Tactic.Common

/-!
# Pairings and the greedy search for one

A pairing puts every element of one list together with one of the other. The greedy
search gives each requirement the first candidate that is left and admissible. It
finds nothing but pairings, and finds one in every order of the two lists exactly
when requirements that share a candidate share all of them.
-/

namespace Relational

variable {α β : Type} {admits : α → β → Bool} {candidates candidates' : List α}
  {requirements requirements' : List β}

/-- A one-to-one pairing of all candidates with all requirements, each pair admissible. -/
def HasPairing (admits : α → β → Bool) (candidates : List α) (requirements : List β) : Prop :=
  ∃ pairs : List (α × β), (pairs.map Prod.fst).Perm candidates ∧
    (pairs.map Prod.snd).Perm requirements ∧ ∀ p ∈ pairs, admits p.1 p.2 = true

/-- Gives each requirement the first admissible candidate that is left. -/
def greedyPairing (admits : α → β → Bool) : List β → List α → Bool
  | [], _ => true
  | requirement :: requirements, candidates =>
    match candidates.findIdx? (admits · requirement) with
    | none => false
    | some index => greedyPairing admits requirements (candidates.eraseIdx index)

/-- Requirements that share a candidate have the same candidates. -/
def Uncontended (admits : α → β → Bool) (candidates : List α) (requirements : List β) : Prop :=
  ∀ r ∈ requirements, ∀ r' ∈ requirements,
    (∃ a ∈ candidates, admits a r = true ∧ admits a r' = true) →
    ∀ a ∈ candidates, admits a r = true → admits a r' = true

theorem HasPairing.perm (h : HasPairing admits candidates requirements)
    (hcandidates : candidates.Perm candidates') (hrequirements : requirements.Perm requirements') :
    HasPairing admits candidates' requirements' := by
  obtain ⟨pairs, hfst, hsnd, hadmits⟩ := h
  exact ⟨pairs, hfst.trans hcandidates, hsnd.trans hrequirements, hadmits⟩

theorem HasPairing.length_eq (h : HasPairing admits candidates requirements) :
    candidates.length = requirements.length := by
  obtain ⟨pairs, hfst, hsnd, -⟩ := h
  rw [← hfst.length_eq, ← hsnd.length_eq, List.length_map, List.length_map]

theorem HasPairing.cons (h : HasPairing admits candidates requirements) {a : α} {r : β}
    (hadmits : admits a r = true) : HasPairing admits (a :: candidates) (r :: requirements) := by
  obtain ⟨pairs, hfst, hsnd, hall⟩ := h
  exact ⟨(a, r) :: pairs, hfst.cons a, hsnd.cons r, List.forall_mem_cons.mpr ⟨hadmits, hall⟩⟩

/-- The candidate that the search takes first. -/
theorem greedyPairing_cons {r : β} (requirements : List β)
    (h : ∃ a ∈ candidates, admits a r = true) :
    ∃ a rest, (a :: rest).Perm candidates ∧ admits a r = true ∧ rest.Sublist candidates ∧
      greedyPairing admits (r :: requirements) candidates =
        greedyPairing admits requirements rest := by
  cases hindex : candidates.findIdx? (admits · r) with
  | none =>
    obtain ⟨a, ha, hadmits⟩ := h
    have hnone := List.findIdx?_eq_none_iff.mp hindex a ha
    rw [hadmits] at hnone
    exact nomatch hnone
  | some index =>
    obtain ⟨hlt, hadmits, -⟩ := List.findIdx?_eq_some_iff_getElem.mp hindex
    refine ⟨candidates[index], candidates.eraseIdx index,
      List.getElem_cons_eraseIdx_perm hlt, hadmits, List.eraseIdx_sublist _ _, ?_⟩
    rw [greedyPairing, hindex]

theorem exists_of_greedyPairing_cons {r : β}
    (h : greedyPairing admits (r :: requirements) candidates = true) :
    ∃ a ∈ candidates, admits a r = true := by
  rw [greedyPairing] at h
  cases hindex : candidates.findIdx? (admits · r) with
  | none =>
    rw [hindex] at h
    exact nomatch h
  | some index =>
    obtain ⟨hlt, hadmits, -⟩ := List.findIdx?_eq_some_iff_getElem.mp hindex
    exact ⟨_, List.getElem_mem hlt, hadmits⟩

/-- What the search accepts has a pairing. -/
theorem hasPairing_of_greedyPairing (hlength : candidates.length = requirements.length)
    (h : greedyPairing admits requirements candidates = true) :
    HasPairing admits candidates requirements := by
  induction requirements generalizing candidates with
  | nil =>
    rw [List.length_eq_zero_iff.mp hlength]
    exact ⟨[], .refl _, .refl _, fun _ hp => nomatch hp⟩
  | cons r requirements ih =>
    obtain ⟨a, rest, hperm, hadmits, -, hgreedy⟩ :=
      greedyPairing_cons requirements (exists_of_greedyPairing_cons h)
    rw [hgreedy] at h
    have hrest : rest.length = requirements.length := by
      have hcount := hperm.length_eq
      rw [List.length_cons, hlength, List.length_cons] at hcount
      omega
    exact ((ih hrest h).cons hadmits).perm hperm (.refl _)

theorem perm_cons_of_mem {x : α} {xs : List α} (h : x ∈ xs) : ∃ rest, xs.Perm (x :: rest) := by
  obtain ⟨before, after, rfl⟩ := List.append_of_mem h
  exact ⟨before ++ after, List.perm_middle⟩

/-- The partner of a requirement, and a pairing of the rest. -/
theorem HasPairing.partner {r : β} (h : HasPairing admits candidates (r :: requirements)) :
    ∃ a rest, candidates.Perm (a :: rest) ∧ admits a r = true ∧
      HasPairing admits rest requirements := by
  obtain ⟨pairs, hfst, hsnd, hall⟩ := h
  obtain ⟨⟨a, _⟩, hmem, rfl⟩ := List.mem_map.mp (hsnd.mem_iff.mpr List.mem_cons_self)
  obtain ⟨rest, hperm⟩ := perm_cons_of_mem hmem
  have hrest : ∀ p ∈ rest, admits p.1 p.2 = true := fun p hp =>
    hall p (hperm.mem_iff.mpr (List.mem_cons_of_mem _ hp))
  exact ⟨a, rest.map Prod.fst, hfst.symm.trans (hperm.map Prod.fst), hall _ hmem,
    rest, .refl _, ((hperm.map Prod.snd).symm.trans hsnd).cons_inv, hrest⟩

theorem HasPairing.swap (h : HasPairing admits candidates requirements) :
    HasPairing (fun r a => admits a r) requirements candidates := by
  obtain ⟨pairs, hfst, hsnd, hall⟩ := h
  refine ⟨pairs.map Prod.swap, ?_, ?_, fun p hp => ?_⟩
  · rw [List.map_map]
    exact hsnd
  · rw [List.map_map]
    exact hfst
  · obtain ⟨q, hq, rfl⟩ := List.mem_map.mp hp
    exact hall q hq

/-- A pairing survives the choice of any candidate for a requirement, if those that share it are
interchangeable: whoever was paired with the candidate takes the one that it replaced. -/
theorem HasPairing.exchange {r : β} {a : α}
    (h : HasPairing admits (a :: candidates) (r :: requirements))
    (huncontended : Uncontended admits (a :: candidates) (r :: requirements))
    (hadmits : admits a r = true) : HasPairing admits candidates requirements := by
  obtain ⟨b, rest, hperm, hb, hrest⟩ := h.partner
  rcases List.mem_cons.mp (hperm.mem_iff.mp List.mem_cons_self) with rfl | ha
  · exact hrest.perm hperm.cons_inv.symm (.refl _)
  · obtain ⟨others, hothers⟩ := perm_cons_of_mem ha
    obtain ⟨r', requirements', hr', hadmits', hpaired⟩ :=
      (hrest.perm hothers (.refl _)).swap.partner
    have hmem : r' ∈ r :: requirements :=
      List.mem_cons_of_mem _ (hr'.mem_iff.mpr List.mem_cons_self)
    have hbmem : b ∈ a :: candidates := hperm.mem_iff.mpr List.mem_cons_self
    have hb' : admits b r' = true := huncontended r List.mem_cons_self r' hmem
      ⟨a, List.mem_cons_self, hadmits, hadmits'⟩ b hbmem hb
    have hcandidates : (b :: others).Perm candidates := by
      have hswap : (a :: b :: others).Perm (a :: candidates) :=
        (List.Perm.swap b a others).trans ((hothers.symm.cons b).trans hperm.symm)
      exact hswap.cons_inv
    exact (hpaired.swap.cons hb').perm hcandidates hr'.symm

theorem Uncontended.mono (h : Uncontended admits candidates requirements)
    (hcandidates : candidates' ⊆ candidates) (hrequirements : requirements' ⊆ requirements) :
    Uncontended admits candidates' requirements' := by
  rintro r hr r' hr' ⟨a, ha, hshared⟩ b hb
  exact h r (hrequirements hr) r' (hrequirements hr') ⟨a, hcandidates ha, hshared⟩ b
    (hcandidates hb)

/-- Without contention the search finds a pairing where there is one. -/
theorem greedyPairing_of_hasPairing (h : HasPairing admits candidates requirements)
    (huncontended : Uncontended admits candidates requirements) :
    greedyPairing admits requirements candidates = true := by
  induction requirements generalizing candidates with
  | nil => rfl
  | cons r requirements ih =>
    obtain ⟨b, rest, hperm, hb, -⟩ := h.partner
    obtain ⟨a, left, hleft, hadmits, hsublist, hgreedy⟩ := greedyPairing_cons requirements
      ⟨b, hperm.mem_iff.mpr List.mem_cons_self, hb⟩
    rw [hgreedy]
    have hsame : Uncontended admits (a :: left) (r :: requirements) :=
      huncontended.mono hleft.subset (List.Subset.refl _)
    refine ih ((h.perm hleft.symm (.refl _)).exchange hsame hadmits) ?_
    exact huncontended.mono hsublist.subset (List.subset_cons_self _ _)

/-- Candidates that stand in the order of their partners are taken one after the other. -/
theorem greedyPairing_pairs {pairs : List (α × β)} (h : ∀ p ∈ pairs, admits p.1 p.2 = true) :
    greedyPairing admits (pairs.map Prod.snd ++ requirements) (pairs.map Prod.fst ++ candidates) =
      greedyPairing admits requirements candidates := by
  induction pairs with
  | nil => rfl
  | cons p pairs ih =>
    obtain ⟨hp, hpairs⟩ := List.forall_mem_cons.mp h
    rw [List.map_cons, List.map_cons, List.cons_append, List.cons_append, greedyPairing,
      List.findIdx?_cons, hp]
    exact ih hpairs

/-- If the search succeeds in every order, there is no contention. Two requirements which share a
candidate come last, when nothing is left but that candidate and one which only the first admits:
the first takes the shared one. -/
theorem uncontended_of_greedyPairing (hlength : candidates.length = requirements.length)
    (h : ∀ candidates' requirements', candidates'.Perm candidates →
      requirements'.Perm requirements → greedyPairing admits requirements' candidates' = true) :
    Uncontended admits candidates requirements := by
  rintro r hr r' hr' ⟨a, ha, har, har'⟩ b hb hbr
  by_contra hbr'
  have hne : r' ≠ r := by
    rintro rfl
    exact hbr' hbr
  have hneb : a ≠ b := by
    rintro rfl
    exact hbr' har'
  obtain ⟨rs, hrs⟩ := perm_cons_of_mem hr
  obtain ⟨rest, hrest⟩ : ∃ rest, rs.Perm (r' :: rest) :=
    perm_cons_of_mem ((List.mem_cons.mp (hrs.mem_iff.mp hr')).resolve_left hne)
  obtain ⟨cs, hcs⟩ := perm_cons_of_mem hb
  obtain ⟨left, hleft⟩ : ∃ left, cs.Perm (a :: left) :=
    perm_cons_of_mem ((List.mem_cons.mp (hcs.mem_iff.mp ha)).resolve_left hneb)
  have hrequirements : requirements.Perm (r :: r' :: rest) := hrs.trans (hrest.cons r)
  have hcandidates : candidates.Perm (b :: a :: left) := hcs.trans (hleft.cons b)
  have hpaired : greedyPairing admits rest left = true := by
    have hfirst := h _ _ hcandidates.symm hrequirements.symm
    have hpairs : ∀ p ∈ [(b, r), (a, r')], admits p.1 p.2 = true := by
      simp [hbr, har']
    rw [← greedyPairing_pairs hpairs]
    exact hfirst
  have hcount : left.length = rest.length := by
    have hleft' := hcandidates.length_eq
    have hrest' := hrequirements.length_eq
    simp only [List.length_cons] at hleft' hrest'
    omega
  obtain ⟨pairs, hfst, hsnd, hall⟩ := hasPairing_of_greedyPairing hcount hpaired
  have hlast := h (pairs.map Prod.fst ++ [a, b]) (pairs.map Prod.snd ++ [r, r'])
    ((List.perm_append_comm.trans ((List.Perm.swap b a _).trans
      ((hfst.cons a).cons b))).trans hcandidates.symm)
    ((List.perm_append_comm.trans ((hsnd.cons r').cons r)).trans hrequirements.symm)
  rw [greedyPairing_pairs hall] at hlast
  simp [greedyPairing, List.findIdx?_cons, har, hbr'] at hlast

/-- The search finds the pairing that there is in every order of the two lists, exactly if there is
no contention. -/
theorem greedyPairing_all_iff (h : HasPairing admits candidates requirements) :
    (∀ candidates' requirements', candidates'.Perm candidates → requirements'.Perm requirements →
      greedyPairing admits requirements' candidates' = true) ↔
        Uncontended admits candidates requirements := by
  constructor
  · exact uncontended_of_greedyPairing h.length_eq
  · intro huncontended candidates' requirements' hcandidates hrequirements
    exact greedyPairing_of_hasPairing (h.perm hcandidates.symm hrequirements.symm)
      (huncontended.mono hcandidates.subset hrequirements.subset)

end Relational
