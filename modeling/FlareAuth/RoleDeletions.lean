import FlareAuth.RoleAssignments

/-!
# When a role is deleted

A role is kept while its key is found in a role text. The pattern that looks for
it is made of the key as it is, so a `_` of the key finds any character, and a
list may suggest a key that it does not have.
-/

namespace FlareAuth.Roles

open Concurrent Procedure Relational
open FlareAuth.Membership (RoleKey predefinedOrganizationRoleKeys)

def listed (role : String) : List (List Char) := role.toList.splitOn ','

def Lists (key role : String) : Prop := key.toList ∈ listed role

instance (key role : String) : Decidable (Lists key role) :=
  inferInstanceAs (Decidable (key.toList ∈ listed role))

/-- Consecutive items of the list, joined by commas, are the key but for letter case and for
what stands where the key has `_`. -/
def Suggests (key role : String) : Prop :=
  ∃ run, run <:+: listed role ∧ run ≠ [] ∧
    List.Forall₂ Text.Resembles key.toList ([','].intercalate run)

theorem listed_comma (role : String) : ∀ item ∈ listed role, ',' ∉ item :=
  Text.comma_not_mem_of_mem_splitOn

theorem fenced_listed (role : String) : Text.fenced (listed role) =
    ',' :: (role.toList ++ [',']) := by
  rw [listed, Text.fenced_eq (List.splitOn_ne_nil ',' role.toList), List.intercalate_splitOn]

theorem percent_not_mem (key : RoleKey) : '%' ∉ key.text.toList := by
  have hvalid := key.valid
  rw [Membership.isRoleKey, Bool.and_eq_true] at hvalid
  exact Membership.percent_not_mem hvalid.2

theorem holdsKey_iff (key : RoleKey) (role : String) :
    holdsKey role key.text = true ↔ Suggests key.text role := by
  rw [holdsKey, ← fenced_listed]
  exact Text.like_namePattern (listed_comma role) (percent_not_mem key)

theorem suggests_of_lists {key : RoleKey} {role : String} (h : Lists key.text role) :
    Suggests key.text role := by
  rw [← holdsKey_iff, holdsKey, ← fenced_listed]
  exact Text.like_fenced_of_mem (listed_comma role) (percent_not_mem key) h

/-- A member or a pending invitation of the Organization has a role text with the property. -/
def Store.Assigns (s : Store) (organizationId : Id) (P : String → Prop) : Prop :=
  (∃ m ∈ s.members, m.organizationId = organizationId ∧ P m.role) ∨
    ∃ i ∈ s.invitations, i.organizationId = organizationId ∧ i.status = .pending ∧ P i.role

theorem Store.Assigns.mono {s : Store} {organizationId : Id} {P Q : String → Prop}
    (h : s.Assigns organizationId P) (hPQ : ∀ role, P role → Q role) :
    s.Assigns organizationId Q := by
  rcases h with ⟨m, hm, horganization, hP⟩ | ⟨i, hi, horganization, hstatus, hP⟩
  · exact .inl ⟨m, hm, horganization, hPQ _ hP⟩
  · exact .inr ⟨i, hi, horganization, hstatus, hPQ _ hP⟩

/-- What the statements look for is what suggests the key. -/
theorem assigned_iff (s : Store) (organizationId : Id) (key : RoleKey) :
    (s.assignedMember organizationId key.text || s.assignedInvitation organizationId key.text) =
      true ↔ s.Assigns organizationId (Suggests key.text) := by
  simp [Store.assignedMember, Store.assignedInvitation, Store.Assigns, holdsKey_iff, and_assoc]

/-- The predefined roles have the predefined keys. -/
theorem predefined_representations (resourceId : Id) :
    ∃ roles, predefinedOrganizationRoleKeys.mapM (predefinedRoleRepresentation resourceId) =
        .ok roles ∧ roles.map (·.key) = predefinedOrganizationRoleKeys ∧
      ∀ role ∈ roles, role.predefined = true := by
  refine ⟨_, rfl, rfl, ?_⟩
  simp

section Sequential

variable {s : Store} {organizationId actorUserId resourceId : Id} {roleKey : String} {r : RoleRow}

theorem found_role (h : s.findOrganizationRole organizationId roleKey = some r) :
    r ∈ s.roles ∧ r.organizationId = organizationId ∧ r.key.text = roleKey := by
  have hfields := List.find?_some h
  rw [decide_eq_true_eq] at hfields
  exact ⟨List.mem_of_find?_eq_some h, hfields⟩

theorem exec_predefinedRoleRepresentations (hroot : s.realmroot = some resourceId) :
    ∃ roles, (predefinedRoleRepresentations).exec s = (.ok roles, s) ∧
      roles.map (·.key) = predefinedOrganizationRoleKeys ∧
      ∀ role ∈ roles, role.predefined = true := by
  obtain ⟨roles, hroles, hrest⟩ := predefined_representations resourceId
  refine ⟨roles, ?_, hrest⟩
  have hlook : (look (·.realmroot)).exec s = (.ok (some resourceId), s) := by
    rw [← hroot]
    rfl
  rw [predefinedRoleRepresentations, exec_bind_ok _ hlook, orThrow_some, done_bind, hroles]
  rfl

theorem exec_getRole_predefined (organizationId : Id) (hroot : s.realmroot = some resourceId)
    {key : RoleKey}
    (hkey : key ∈ predefinedOrganizationRoleKeys) (htext : key.text = roleKey) :
    ∃ role, (getRole organizationId roleKey).exec s = (.ok role, s) ∧ role.predefined = true := by
  obtain ⟨roles, hexec, hkeys, hpredefined⟩ := exec_predefinedRoleRepresentations hroot
  rw [← hkeys, List.mem_map] at hkey
  obtain ⟨role, hrole, rfl⟩ := hkey
  have hsome : (roles.find? fun role => role.key.text = roleKey).isSome = true := by
    rw [List.find?_isSome]
    exact ⟨role, hrole, by simpa using htext⟩
  obtain ⟨found, hfound⟩ := Option.isSome_iff_exists.mp hsome
  refine ⟨found, ?_, hpredefined found (List.mem_of_find?_eq_some hfound)⟩
  rw [getRole, exec_bind_ok _ hexec, hfound]
  rfl

theorem exec_getRole_stored (hroot : s.realmroot = some resourceId)
    (hkey : r.key ∉ predefinedOrganizationRoleKeys)
    (hfound : s.findOrganizationRole organizationId roleKey = some r) :
    ∃ role, (getRole organizationId roleKey).exec s = (.ok role, s) ∧ role.predefined = false ∧
      role.updatedAt = some r.updatedAt := by
  obtain ⟨roles, hexec, hkeys, _⟩ := exec_predefinedRoleRepresentations hroot
  have hnone : (roles.find? fun role => role.key.text = roleKey) = none := by
    rw [List.find?_eq_none]
    intro role hrole
    rw [decide_eq_true_eq]
    intro htext
    have hsame : role.key = r.key := key_ext (htext.trans (found_role hfound).2.2.symm)
    rw [← hkeys, ← hsame] at hkey
    exact hkey (List.mem_map_of_mem hrole)
  have hlook : (look (·.findOrganizationRole organizationId roleKey)).exec s =
      (.ok (some r), s) := by
    rw [← hfound]
    rfl
  refine ⟨⟨r.key, r.displayName, r.description, false, r.permission, some r.createdAt,
    some r.updatedAt⟩, ?_, rfl, rfl⟩
  rw [getRole, exec_bind_ok _ hexec, hnone]
  change (getStoredRole organizationId roleKey).exec s = _
  rw [getStoredRole, exec_bind_ok _ hlook]
  change (look _ >>= _ : RoleAdministration _).exec s = _
  have hscopes : (look fun s => (s.findOrganizationRole organizationId roleKey).map
      (·.permission)).exec s = (.ok (some r.permission), s) := by
    change (Except.ok ((s.findOrganizationRole organizationId roleKey).map (·.permission)), s) = _
    rw [hfound]
    rfl
  rw [exec_bind_ok _ hscopes]
  rfl

/-- The refusal of a deletion, and what it leaves. -/
def Refuses (s : Store) (r : RoleRow) (actorUserId : Id) : Prop :=
  ((deleteRole r.organizationId r.key.text actorUserId).exec s).1 =
      .error (conflict "Assigned Organization Roles cannot be deleted.") ∧
    ((deleteRole r.organizationId r.key.text actorUserId).exec s).2.roles = s.roles

def Deletes (s : Store) (r : RoleRow) (actorUserId : Id) : Prop :=
  ((deleteRole r.organizationId r.key.text actorUserId).exec s).1 = .ok () ∧
    r ∉ ((deleteRole r.organizationId r.key.text actorUserId).exec s).2.roles

/-- The deletion with the answers of its reads: one batch, and an explanation if it deleted
nothing. -/
theorem exec_deleteRole (hroot : s.realmroot = some resourceId)
    (hkey : r.key ∉ predefinedOrganizationRoleKeys)
    (hfound : s.findOrganizationRole r.organizationId r.key.text = some r) (actorUserId : Id) :
    ∃ audit : Audit, (deleteRole r.organizationId r.key.text actorUserId).exec s =
      (if (s.roles.filter (s.deletionCondition r.organizationId r.key.text r.updatedAt)).isEmpty
        then explainDeletion r.organizationId r.key.text
        else Procedure.done ()).exec
      { s with
        generated := s.generated + 1
        audits := s.audits ++ (s.roles.filter (s.deletionCondition r.organizationId r.key.text
          r.updatedAt)).map fun _ => audit
        roles := s.roles.filter fun other =>
          !s.deletionCondition r.organizationId r.key.text r.updatedAt other } := by
  obtain ⟨role, hget, hpredefined, hupdatedAt⟩ := exec_getRole_stored hroot hkey hfound
  refine ⟨⟨"id-" ++ toString s.generated, "organization.role.deleted", r.organizationId,
    actorUserId, some r.key.text, none, [], [], s.now⟩, ?_⟩
  rw [deleteRole, exec_bind_ok _ hget, require_pos hpredefined, done_bind, hupdatedAt]
  let found := s.roles.filter (s.deletionCondition r.organizationId r.key.text r.updatedAt)
  change Procedure.exec (if (!found.isEmpty) = true then Procedure.done ()
    else explainDeletion r.organizationId r.key.text) _ =
      Procedure.exec (if found.isEmpty = true then _ else _) _
  cases found.isEmpty with
  | true => rfl
  | false => rfl

theorem exec_explainDeletion (hfound : s.findOrganizationRole organizationId roleKey = some r)
    (hassigned : s.assignedMember organizationId roleKey = true ∨
      s.assignedInvitation organizationId roleKey = true) :
    (explainDeletion organizationId roleKey).exec s =
      (.error (conflict "Assigned Organization Roles cannot be deleted."), s) := by
  have hlook : (look (·.findOrganizationRole organizationId roleKey)).exec s =
      (.ok (some r), s) := by
    rw [← hfound]
    rfl
  rw [explainDeletion, exec_bind_ok _ hlook, require_pos (by rfl), done_bind]
  by_cases hmember : s.assignedMember organizationId roleKey = true
  · have hlook : (look (·.assignedMember organizationId roleKey)).exec s = (.ok true, s) := by
      rw [← hmember]
      rfl
    rw [exec_bind_ok _ hlook]
    rfl
  · have hinvitation := hassigned.resolve_left hmember
    rw [Bool.not_eq_true] at hmember
    have hlook : (look (·.assignedMember organizationId roleKey)).exec s = (.ok false, s) := by
      rw [← hmember]
      rfl
    have hlook' : (look (·.assignedInvitation organizationId roleKey)).exec s = (.ok true, s) := by
      rw [← hinvitation]
      rfl
    rw [exec_bind_ok _ hlook, require_pos rfl, done_bind, exec_bind_ok _ hlook']
    rfl

/-- With nothing that suggests its key, the role is deleted. -/
theorem deletes_of_unassigned (actorUserId : Id) (hroot : s.realmroot = some resourceId)
    (hkey : r.key ∉ predefinedOrganizationRoleKeys)
    (hfound : s.findOrganizationRole r.organizationId r.key.text = some r)
    (hfree : ¬s.Assigns r.organizationId (Suggests r.key.text)) : Deletes s r actorUserId := by
  rw [← assigned_iff, Bool.or_eq_true, not_or, Bool.not_eq_true, Bool.not_eq_true] at hfree
  have hmem := (found_role hfound).1
  have hcondition : s.deletionCondition r.organizationId r.key.text r.updatedAt r = true := by
    simp [Store.deletionCondition, Store.unchangedRole, hfree.1, hfree.2]
  have hnonempty : (s.roles.filter
      (s.deletionCondition r.organizationId r.key.text r.updatedAt)).isEmpty = false := by
    rw [List.isEmpty_eq_false_iff]
    exact List.ne_nil_of_mem (List.mem_filter.mpr ⟨hmem, hcondition⟩)
  obtain ⟨audit, hexec⟩ := exec_deleteRole hroot hkey hfound actorUserId
  rw [hnonempty] at hexec
  rw [Deletes, hexec]
  refine ⟨rfl, ?_⟩
  intro hstays
  have hkept := (List.mem_filter.mp hstays).2
  rw [hcondition] at hkept
  exact absurd hkept (by decide)

/-- With something that suggests its key, it is refused. -/
theorem refuses_of_assigned (actorUserId : Id) (hroot : s.realmroot = some resourceId)
    (hkey : r.key ∉ predefinedOrganizationRoleKeys)
    (hfound : s.findOrganizationRole r.organizationId r.key.text = some r)
    (hassigned : s.Assigns r.organizationId (Suggests r.key.text)) : Refuses s r actorUserId := by
  rw [← assigned_iff, Bool.or_eq_true] at hassigned
  have hcondition : ∀ other,
      s.deletionCondition r.organizationId r.key.text r.updatedAt other = false := by
    intro other
    rw [Store.deletionCondition]
    rcases hassigned with hmember | hinvitation
    · rw [hmember, Bool.not_true, Bool.and_false, Bool.false_and]
    · rw [hinvitation, Bool.not_true, Bool.and_false]
  obtain ⟨audit, hexec⟩ := exec_deleteRole hroot hkey hfound actorUserId
  have hnone : s.roles.filter
      (s.deletionCondition r.organizationId r.key.text r.updatedAt) = [] := by
    simp [hcondition]
  have hall : (s.roles.filter fun other =>
      !s.deletionCondition r.organizationId r.key.text r.updatedAt other) = s.roles := by
    simp [hcondition]
  rw [hnone, hall] at hexec
  have hexplains : ((deleteRole r.organizationId r.key.text actorUserId).exec s) =
      (.error (conflict "Assigned Organization Roles cannot be deleted."),
        { s with generated := s.generated + 1 }) := by
    rw [hexec, List.map_nil, List.append_nil]
    exact exec_explainDeletion hfound hassigned
  rw [Refuses, hexplains]
  exact ⟨rfl, rfl⟩

theorem exec_deleteRole_unavailable (hroot : s.realmroot = none) :
    (deleteRole organizationId roleKey actorUserId).exec s =
      (.error (.error "The Realmroot Resource Server is unavailable."), s) := by
  have hlook : (look (·.realmroot)).exec s = (.ok none, s) := by
    rw [← hroot]
    rfl
  have hrepresentations : (predefinedRoleRepresentations).exec s =
      (.error (.error "The Realmroot Resource Server is unavailable."), s) := by
    rw [predefinedRoleRepresentations, exec_bind_ok _ hlook]
    rfl
  exact exec_bind_error _ (exec_bind_error _ hrepresentations)

theorem exec_deleteRole_predefined (hroot : s.realmroot = some resourceId) {key : RoleKey}
    (hkey : key ∈ predefinedOrganizationRoleKeys) (htext : key.text = roleKey) :
    (deleteRole organizationId roleKey actorUserId).exec s =
      (.error (conflict "Predefined Organization Roles cannot be deleted."), s) := by
  obtain ⟨role, hget, hpredefined⟩ :=
    exec_getRole_predefined organizationId hroot hkey htext
  have hrefused : role.predefined ≠ false := by simp [hpredefined]
  rw [deleteRole, exec_bind_ok _ hget, require_neg hrefused]
  rfl

/-- Neither a deletion nor a refusal as assigned happens without the Realmroot Resource Server or
with a predefined key. -/
theorem dynamic_of_answered (h : Deletes s r actorUserId ∨ Refuses s r actorUserId) :
    s.realmroot.isSome = true ∧ r.key ∉ predefinedOrganizationRoleKeys := by
  cases hroot : s.realmroot with
  | none =>
    rw [Deletes, Refuses, exec_deleteRole_unavailable hroot] at h
    rcases h with ⟨h, _⟩ | ⟨h, _⟩
    · cases h
    · cases h
  | some resourceId =>
    refine ⟨rfl, fun hkey => ?_⟩
    rw [Deletes, Refuses, exec_deleteRole_predefined hroot hkey rfl] at h
    rcases h with ⟨h, _⟩ | ⟨h, _⟩
    · cases h
    · rw [conflict, conflict] at h
      simp at h

end Sequential

/-- With no other operation, a stored role is deleted exactly when no member and no pending
invitation of its Organization has its key in the list, and is refused as assigned otherwise. -/
structure DeletesUnassigned (s : Store) (r : RoleRow) (actorUserId : Id) : Prop where
  deletes : Deletes s r actorUserId ↔ ¬s.Assigns r.organizationId (Lists r.key.text)
  refuses : s.Assigns r.organizationId (Lists r.key.text) → Refuses s r actorUserId

/-- The Realmroot Resource Server is there, the key is none of the predefined, which no stored role
has, and a list suggests the key only where some list has it. -/
structure Unmistaken (s : Store) (r : RoleRow) : Prop where
  realmroot : s.realmroot.isSome = true
  dynamic : r.key ∉ predefinedOrganizationRoleKeys
  listed : s.Assigns r.organizationId (Suggests r.key.text) →
    s.Assigns r.organizationId (Lists r.key.text)

variable {s : Store} {organizationId actorUserId : Id} {roleKey : String} {r : RoleRow}

/-- A stored role is deleted exactly when it is unassigned, if and only if no list suggests its key
while none has it. -/
theorem deletes_unassigned_iff (hfound : s.findOrganizationRole organizationId roleKey = some r) :
    DeletesUnassigned s r actorUserId ↔ Unmistaken s r := by
  obtain ⟨_, horganization, hkey⟩ := found_role hfound
  rw [← horganization, ← hkey] at hfound
  constructor
  · intro h
    have hanswered : Deletes s r actorUserId ∨ Refuses s r actorUserId := by
      by_cases hlists : s.Assigns r.organizationId (Lists r.key.text)
      · exact .inr (h.refuses hlists)
      · exact .inl (h.deletes.mpr hlists)
    obtain ⟨hroot, hdynamic⟩ := dynamic_of_answered hanswered
    refine ⟨hroot, hdynamic, fun hsuggests => ?_⟩
    by_contra hlists
    obtain ⟨resourceId, hroot⟩ := Option.isSome_iff_exists.mp hroot
    have hdeleted := (h.deletes.mpr hlists).1
    have hrefused := (refuses_of_assigned actorUserId hroot hdynamic hfound hsuggests).1
    rw [hdeleted] at hrefused
    cases hrefused
  · intro h
    obtain ⟨resourceId, hroot⟩ := Option.isSome_iff_exists.mp h.realmroot
    by_cases hlists : s.Assigns r.organizationId (Lists r.key.text)
    · have hsuggests := hlists.mono fun _ => suggests_of_lists
      have hrefuses := refuses_of_assigned actorUserId hroot h.dynamic hfound hsuggests
      refine ⟨⟨fun hdeletes => ?_, fun hfree => absurd hlists hfree⟩, fun _ => hrefuses⟩
      have hok := hdeletes.1
      rw [hrefuses.1] at hok
      cases hok
    · have hfree : ¬s.Assigns r.organizationId (Suggests r.key.text) :=
        fun hsuggests => hlists (h.listed hsuggests)
      exact ⟨⟨fun _ => hlists, fun _ => deletes_of_unassigned actorUserId hroot h.dynamic
        hfound hfree⟩,
        fun hassigned => absurd hassigned hlists⟩

namespace Sample

def underscored : RoleRow :=
  ⟨"r-1", "acme", ⟨"team_lead", by decide⟩, [], "Team lead", none, 0, 0⟩

def hyphened : RoleRow :=
  ⟨"r-2", "acme", ⟨"team-lead", by decide⟩, [], "Leading team", none, 0, 0⟩

/-- Two roles, of which a member has the second. -/
def hyphenated : Store :=
  { store with
    roles := [underscored, hyphened]
    members := [⟨"m", "acme", "v", "team-lead", none, 0, 0⟩] }

end Sample

/-- The role that the member has is refused, as it is to be. -/
theorem deletes_unassigned_sample :
    Refuses Sample.hyphenated Sample.hyphened "u" ∧
      DeletesUnassigned Sample.hyphenated Sample.hyphened "u" := by
  have hfound : Sample.hyphenated.findOrganizationRole "acme" "team-lead" =
      some Sample.hyphened := by
    rfl
  have hlists : Sample.hyphenated.Assigns "acme" (Lists "team-lead") :=
    .inl ⟨_, List.mem_singleton.mpr rfl, rfl, by decide +kernel⟩
  have hunmistaken : Unmistaken Sample.hyphenated Sample.hyphened :=
    ⟨by rfl, by decide, fun _ => hlists⟩
  have hdeletes : DeletesUnassigned Sample.hyphenated Sample.hyphened "u" :=
    (deletes_unassigned_iff hfound).mpr hunmistaken
  exact ⟨hdeletes.refuses hlists, hdeletes⟩

/-- The role that nobody has cannot be deleted, since its `_` finds the hyphen of the other. -/
theorem not_deletes_unassigned :
    Sample.hyphenated.findOrganizationRole "acme" "team_lead" = some Sample.underscored ∧
      ¬DeletesUnassigned Sample.hyphenated Sample.underscored "u" := by
  refine ⟨by rfl, fun h => ?_⟩
  have hunassigned : ¬Sample.hyphenated.Assigns "acme" (Lists "team_lead") := by
    rintro (⟨m, hm, _, hlists⟩ | ⟨i, hi, _⟩)
    · obtain rfl := List.mem_singleton.mp hm
      revert hlists
      decide +kernel
    · cases hi
  have hsuggests : Sample.hyphenated.Assigns "acme" (Suggests "team_lead") := by
    refine .inl ⟨_, List.mem_singleton.mpr rfl, rfl, ?_⟩
    exact (holdsKey_iff Sample.underscored.key _).mp (by decide +kernel)
  have hfound : Sample.hyphenated.findOrganizationRole "acme" "team_lead" =
      some Sample.underscored := by
    rfl
  have hdeleted := (h.deletes.mpr hunassigned).1
  have hroot : Sample.hyphenated.realmroot = some "realmroot" := by rfl
  have hdynamic : Sample.underscored.key ∉ predefinedOrganizationRoleKeys := by decide
  have hrefused := (refuses_of_assigned "u" hroot hdynamic hfound hsuggests).1
  rw [hdeleted] at hrefused
  cases hrefused

end FlareAuth.Roles
