import FlareAuth.AuthorizationDetails
import FlareAuth.Relational.Pairing

/-!
# Approved details and the details of a request

An approval narrows the templates of a request to concrete details. The check looks for
a one-to-one pairing and takes, for each requested detail, the first approved one that
fits; approved details that repeat are refused.
-/

namespace FlareAuth

open Relational

section Matching

variable [Locale]

/-- The approved detail is the requested one, or an instance of the requested template. -/
def admitsDetail (approved requested : AuthorizationDetail) : Bool :=
  canonicalJson approved == canonicalJson requested ||
    authorizationDetailMatchesTemplate approved requested

theorem matchFrom_eq_greedyPairing (requested remaining : List AuthorizationDetail) :
    matchFrom requested remaining = greedyPairing admitsDetail requested remaining := by
  induction requested generalizing remaining with
  | nil => rfl
  | cons requirement requested ih =>
    have hadmits : (fun candidate => canonicalJson candidate == canonicalJson requirement ||
        authorizationDetailMatchesTemplate candidate requirement) = (admitsDetail · requirement) :=
      rfl
    unfold matchFrom greedyPairing
    rw [hadmits]
    cases remaining.findIdx? (admitsDetail · requirement) with
    | none => rfl
    | some index => exact ih _

theorem hasDuplicateAuthorizationDetails_eq_false {details : List AuthorizationDetail} :
    hasDuplicateAuthorizationDetails details = false ↔ (details.map canonicalJson).Nodup := by
  unfold hasDuplicateAuthorizationDetails
  rw [← Text.length_unique_eq_iff, List.length_map, bne_eq_false_iff_eq]

theorem authorizationDetailsMatchRequest_iff {approved requested : List AuthorizationDetail} :
    authorizationDetailsMatchRequest approved requested = true ↔
      approved.length = requested.length ∧ (approved.map canonicalJson).Nodup ∧
        greedyPairing admitsDetail requested approved = true := by
  unfold authorizationDetailsMatchRequest
  rw [Bool.and_eq_true, Bool.and_eq_true, beq_iff_eq, Bool.not_eq_true',
    hasDuplicateAuthorizationDetails_eq_false, matchFrom_eq_greedyPairing, and_assoc]

/-- Details without a repetition which pair off are accepted in every order, exactly if requested
details that share an approved one share them all. -/
theorem accepted_in_every_order_iff {approved requested : List AuthorizationDetail}
    (hnodup : (approved.map canonicalJson).Nodup) (h : HasPairing admitsDetail approved requested) :
    (∀ approved' requested', approved'.Perm approved → requested'.Perm requested →
      authorizationDetailsMatchRequest approved' requested' = true) ↔
        Uncontended admitsDetail approved requested := by
  rw [← greedyPairing_all_iff h]
  refine forall₂_congr fun approved' requested' => forall₂_congr fun happroved hrequested => ?_
  rw [authorizationDetailsMatchRequest_iff]
  have hlength : approved'.length = requested'.length :=
    happroved.length_eq.trans (h.length_eq.trans hrequested.length_eq.symm)
  have hnodup' : (approved'.map canonicalJson).Nodup :=
    (happroved.map canonicalJson).nodup_iff.mpr hnodup
  simp [hlength, hnodup']

/-- What is accepted pairs off without a repetition; and where requested details that share an
approved one share them all, all that pairs off so is accepted, in every order of the two lists. -/
theorem authorizationDetailsMatchRequest_decides (approved requested : List AuthorizationDetail) :
    (authorizationDetailsMatchRequest approved requested = true →
      (approved.map canonicalJson).Nodup ∧ HasPairing admitsDetail approved requested) ∧
    (Uncontended admitsDetail approved requested → ∀ approved' requested',
      approved'.Perm approved → requested'.Perm requested →
        (authorizationDetailsMatchRequest approved' requested' = true ↔
          (approved.map canonicalJson).Nodup ∧ HasPairing admitsDetail approved requested)) := by
  have hsound : ∀ {left right : List AuthorizationDetail},
      authorizationDetailsMatchRequest left right = true →
        (left.map canonicalJson).Nodup ∧ HasPairing admitsDetail left right := by
    intro left right h
    obtain ⟨hlength, hnodup, hgreedy⟩ := authorizationDetailsMatchRequest_iff.mp h
    exact ⟨hnodup, hasPairing_of_greedyPairing hlength hgreedy⟩
  refine ⟨hsound, fun huncontended approved' requested' happroved hrequested => ⟨fun h => ?_, ?_⟩⟩
  · obtain ⟨hnodup, hpairing⟩ := hsound h
    exact ⟨(happroved.map canonicalJson).nodup_iff.mp hnodup, hpairing.perm happroved hrequested⟩
  · rintro ⟨hnodup, hpairing⟩
    exact (accepted_in_every_order_iff hnodup hpairing).mpr huncontended _ _ happroved hrequested

end Matching

namespace Sample

/-- A template, and two of its instances. -/
def project : AuthorizationDetail := .object [("type", .string "project")]

def projectOne : AuthorizationDetail := .object [("type", .string "project"), ("id", .string "1")]

def projectTwo : AuthorizationDetail := .object [("type", .string "project"), ("id", .string "2")]

def archive : AuthorizationDetail := .object [("type", .string "archive")]

theorem projects_pair : HasPairing admitsDetail [projectOne, projectTwo] [project, projectOne] :=
  ⟨[(projectTwo, project), (projectOne, projectOne)], List.Perm.swap _ _ _, .refl _,
    by decide +kernel⟩

theorem repeated_pair : HasPairing admitsDetail [projectOne, projectOne] [projectOne, projectOne] :=
  ⟨[(projectOne, projectOne), (projectOne, projectOne)], .refl _, .refl _, by decide +kernel⟩

end Sample

/-- A template and another detail share no approved one: each order of the two is accepted. -/
theorem authorizationDetailsMatchRequest_decides_template :
    Uncontended admitsDetail [Sample.projectTwo, Sample.archive] [Sample.project, Sample.archive] ∧
    authorizationDetailsMatchRequest [Sample.archive, Sample.projectTwo]
      [Sample.project, Sample.archive] = true := by
  have huncontended : Uncontended admitsDetail [Sample.projectTwo, Sample.archive]
      [Sample.project, Sample.archive] := by
    unfold Uncontended
    decide +kernel
  have hpairing : HasPairing admitsDetail [Sample.projectTwo, Sample.archive]
      [Sample.project, Sample.archive] :=
    ⟨[(Sample.projectTwo, Sample.project), (Sample.archive, Sample.archive)], .refl _, .refl _,
      by decide +kernel⟩
  have hdecides := (authorizationDetailsMatchRequest_decides _ _).2 huncontended
    [Sample.archive, Sample.projectTwo] [Sample.project, Sample.archive] (List.Perm.swap _ _ _)
    (.refl _)
  exact ⟨huncontended, hdecides.mpr ⟨by decide +kernel, hpairing⟩⟩

/-- Approved details that repeat are refused although they pair off, and a template may take the
one detail that another requested one needs. -/
theorem pairings_refused :
    (HasPairing admitsDetail [Sample.projectOne, Sample.projectOne]
        [Sample.projectOne, Sample.projectOne] ∧
      authorizationDetailsMatchRequest [Sample.projectOne, Sample.projectOne]
        [Sample.projectOne, Sample.projectOne] = false) ∧
    HasPairing admitsDetail [Sample.projectOne, Sample.projectTwo]
      [Sample.project, Sample.projectOne] ∧
    authorizationDetailsMatchRequest [Sample.projectOne, Sample.projectTwo]
      [Sample.project, Sample.projectOne] = false ∧
    authorizationDetailsMatchRequest [Sample.projectTwo, Sample.projectOne]
      [Sample.project, Sample.projectOne] = true :=
  ⟨⟨Sample.repeated_pair, by decide +kernel⟩, Sample.projects_pair, by decide +kernel,
    by decide +kernel⟩

end FlareAuth
