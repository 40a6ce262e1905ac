import FlareAuth.TenantAuthorization

/-!
# Effective scopes of a principal

What a user holds in a Context comes from the registry, from the entitlements of the
Context and from the roles of the membership there; what an Application holds comes
from the registry and from its entitlements. The rest of the store plays no part.
-/

namespace FlareAuth

open Concurrent Procedure Access

namespace Directory

variable (d : Directory) (m : Member) (resource : ApiResource) (scope : String)

/-- A role of the Organization gives the scope to the membership. -/
def RoleGrants : Prop :=
  ∃ role ∈ m.roles, ⟨resource.id, scope⟩ ∈ d.listOrganizationRoleScopes m.organizationId role

/-- The membership gives the scope at the resource. -/
def MembershipGrants : Prop :=
  if resource.isRealmroot then
    inScopeRegistry scope = true ∧ (d.RoleGrants m resource scope ∨
      ∃ role ∈ m.roles, ∃ own, predefinedOrganizationRoleScopes role = .ok own ∧ scope ∈ own)
  else
    resource.activeVisibleToOrganization m.organizationId = true ∧
      scope ∈ resource.scopesOfMode .assigned ∧ (d.RoleGrants m resource scope ∨
        (resource.ownerOrganizationId = m.organizationId ∧ "owner" ∈ m.roles))

end Directory

/-- No role that is looked up among the predefined ones has the name of an inherited property. -/
def Member.Decodable (m : Member) (resource : ApiResource) : Prop :=
  resource.isRealmroot = true → ∀ role ∈ m.roles, role ∉ objectPrototype

section Membership

variable {d : Directory} {m : Member} {resource : ApiResource} {scope : String}

theorem mem_dynamicScopes :
    scope ∈ (m.roles.flatMap fun role =>
      ((d.listOrganizationRoleScopes m.organizationId role).filter fun item =>
        item.resourceId = resource.id).map (·.scope)) ↔ d.RoleGrants m resource scope := by
  simp only [Directory.RoleGrants, List.mem_flatMap, List.mem_map, List.mem_filter,
    decide_eq_true_eq]
  constructor
  · rintro ⟨role, hrole, ⟨resourceId, value⟩, ⟨hitem, rfl⟩, rfl⟩
    exact ⟨role, hrole, hitem⟩
  · rintro ⟨role, hrole, hitem⟩
    exact ⟨role, hrole, _, ⟨hitem, rfl⟩, rfl⟩

theorem mem_filterCurrentResourceScopes {organizationId : Id} {scopes : List String}
    (h : resource.isRealmroot = false) :
    scope ∈ filterCurrentResourceScopes resource organizationId scopes ↔ scope ∈ scopes ∧
      resource.activeVisibleToOrganization organizationId = true ∧
        scope ∈ resource.scopesOfMode .assigned := by
  unfold filterCurrentResourceScopes
  cases hvisible : resource.activeVisibleToOrganization organizationId with
  | false => simp
  | true => cases scopes <;> simp [h]

theorem mem_membershipScopes {scopes : List String} (h : resource.isRealmroot = false) :
    scope ∈ membershipScopes m.organizationId m.roles resource scopes ↔
      resource.activeVisibleToOrganization m.organizationId = true ∧
        scope ∈ resource.scopesOfMode .assigned ∧ (scope ∈ scopes ∨
          (resource.ownerOrganizationId = m.organizationId ∧ "owner" ∈ m.roles)) := by
  unfold membershipScopes
  rw [h, if_neg Bool.false_ne_true]
  by_cases hnone : (scopes.isEmpty && !m.roles.contains "owner") = true
  · rw [if_pos hnone]
    simp only [Bool.and_eq_true, List.isEmpty_iff, Bool.not_eq_true', List.contains_eq_mem,
      decide_eq_false_iff_not] at hnone
    simp [hnone.1, hnone.2]
  · rw [if_neg hnone, mem_filterCurrentResourceScopes h]
    by_cases howner : resource.ownerOrganizationId = m.organizationId ∧ "owner" ∈ m.roles
    · simp [howner]
      tauto
    · simp [howner]
      tauto

/-- The scopes of a membership, or the failure at an inherited name. -/
theorem membershipScopes_cases (d : Directory) (m : Member) (resource : ApiResource) :
    (∃ e, d.resolveOrganizationMembershipScopes m.organizationId m.roles resource = .error e ∧
      ¬m.Decodable resource) ∨
    ∃ scopes, d.resolveOrganizationMembershipScopes m.organizationId m.roles resource =
      .ok scopes ∧ m.Decodable resource ∧
        ∀ scope, scope ∈ scopes ↔ d.MembershipGrants m resource scope := by
  unfold Directory.resolveOrganizationMembershipScopes Member.Decodable Directory.MembershipGrants
  cases hrealmroot : resource.isRealmroot with
  | false =>
    refine .inr ⟨_, rfl, fun h => absurd h Bool.false_ne_true, fun scope => ?_⟩
    have hmem : scope ∈ membershipScopes m.organizationId m.roles resource
        (Text.unique (([] : List (List String)).flatten ++ m.roles.flatMap fun role =>
          ((d.listOrganizationRoleScopes m.organizationId role).filter fun item =>
            item.resourceId = resource.id).map (·.scope))) ↔ _ := mem_membershipScopes hrealmroot
    rw [Text.mem_unique, List.flatten_nil, List.nil_append, mem_dynamicScopes] at hmem
    simpa using hmem
  | true =>
    rw [if_pos rfl]
    cases hpredefined : m.roles.mapM predefinedOrganizationRoleScopes with
    | error e =>
      refine .inl ⟨e, rfl, fun hnamed => ?_⟩
      obtain ⟨scopes, hscopes⟩ := mapM_predefined_ok (hnamed rfl)
      rw [hscopes] at hpredefined
      cases hpredefined
    | ok predefined =>
      refine .inr ⟨_, rfl, fun _ => mapM_predefined_named hpredefined, fun scope => ?_⟩
      have hmem : scope ∈ predefined.flatten ↔ _ := mem_mapM_predefined hpredefined
      simp only [membershipScopes, hrealmroot, if_true, Text.mem_sort, List.mem_filter,
        Text.mem_unique, List.mem_append, hmem, mem_dynamicScopes]
      rw [and_comm, or_comm]

end Membership

theorem mem_forall₂_flatten {β : Type} {P : β → String → Prop} {bs : List β}
    {css : List (List String)} (h : List.Forall₂ (fun b cs => ∀ c, c ∈ cs ↔ P b c) bs css)
    {c : String} : c ∈ css.flatten ↔ ∃ b ∈ bs, P b c := by
  induction h with
  | nil => simp
  | cons hhead _ ih => simp [hhead, ih]

section Effective

variable (s : Store) (userId : Id) (resource : ApiResource) (now : ℕ)

/-- The memberships that act in a Context: none in that of the user alone. -/
def contextMemberships (tenant : Option Id) : List Member :=
  visibleMemberships resource (s.directory.listUserMemberships userId) (some tenant)

def UserHolds (tenant : Option Id) (scope : String) : Prop :=
  scope ∈ resource.automaticScopes ∨
    (∃ e ∈ s.entitlements, e.subject = .user userId tenant ∧ e.resourceServerId = resource.id ∧
      e.active now = true ∧ e.scope = scope) ∨
    ∃ m ∈ s.directory.members, m.userId = userId ∧ tenant = some m.organizationId ∧
      ∃ stored, s.directory.findResource resource.id = some stored ∧
        s.directory.MembershipGrants m stored scope

def ApplicationHolds (applicationId ownerOrganizationId : Id) (scope : String) : Prop :=
  resource.activeVisibleToOrganization ownerOrganizationId = true ∧
    (scope ∈ resource.automaticScopes ∨
      ∃ e ∈ s.entitlements, e.subject = .application applicationId ∧
        e.resourceServerId = resource.id ∧ e.active now = true ∧ e.scope = scope)

/-- The roles of every membership in the Context can be looked up. -/
def ContextDecodable (tenant : Option Id) : Prop :=
  ∀ m ∈ s.directory.members, m.userId = userId → tenant = some m.organizationId →
    ∀ stored, s.directory.findResource resource.id = some stored → m.Decodable stored

variable {s userId resource now}

theorem mem_contextMemberships {tenant : Option Id} {m : Member} :
    m ∈ contextMemberships s userId resource tenant ↔
      m ∈ s.directory.members ∧ m.userId = userId ∧ tenant = some m.organizationId := by
  unfold contextMemberships visibleMemberships
  rw [if_neg (by simp)]
  cases tenant with
  | none => simp [tenantMemberships]
  | some organizationId =>
    simp only [tenantMemberships, Directory.listUserMemberships, List.mem_filter,
      decide_eq_true_eq, and_assoc, Option.some.injEq]
    rw [@eq_comm _ organizationId]

/-- The look-up of a membership's scopes, by the resource's identifier. -/
theorem exec_membershipScopes_cases (s : Store) (resource : ApiResource) (m : Member) :
    (∃ e, (resolveOrganizationMembershipScopes m.organizationId m.roles resource.id).exec s =
        (.error e, s) ∧
      ¬∀ stored, s.directory.findResource resource.id = some stored → m.Decodable stored) ∨
    ∃ scopes, (resolveOrganizationMembershipScopes m.organizationId m.roles resource.id).exec s =
        (.ok scopes, s) ∧
      (∀ stored, s.directory.findResource resource.id = some stored → m.Decodable stored) ∧
      ∀ scope, scope ∈ scopes ↔ ∃ stored, s.directory.findResource resource.id = some stored ∧
        s.directory.MembershipGrants m stored scope := by
  have hexec : (resolveOrganizationMembershipScopes m.organizationId m.roles resource.id).exec s =
      (resolveOrganizationMembershipScopesForResource m.organizationId m.roles
        (s.directory.findResource resource.id)).exec s := rfl
  rw [hexec]
  cases hfound : s.directory.findResource resource.id with
  | none => exact .inr ⟨[], rfl, by simp, by simp⟩
  | some stored =>
    rw [exec_resolveOrganizationMembershipScopes]
    rcases membershipScopes_cases s.directory m stored with
      ⟨e, he, hdecodable⟩ | ⟨scopes, hok, hdecodable, hmem⟩
    · rw [he]
      exact .inl ⟨e, rfl, fun h => hdecodable (h stored rfl)⟩
    · rw [hok]
      refine .inr ⟨scopes, rfl, ?_, fun scope => ?_⟩
      · rintro _ ⟨⟩
        exact hdecodable
      · rw [hmem scope]
        simp

theorem mem_currentRegistryScopes {scopes : List String} {scope : String} :
    scope ∈ resource.currentRegistryScopes scopes ↔
      scope ∈ scopes ∧ scope ∈ resource.declaredScopes := by
  simp [ApiResource.currentRegistryScopes]

theorem mem_contextGrants {tenant : Option Id} {scope : String} :
    scope ∈ ((s.listActiveUserScopeEntitlements userId resource.id now).filter
      (userEntitlementMatchesOrganization · (some tenant))).map (·.scope) ↔
    ∃ e ∈ s.entitlements, e.subject = .user userId tenant ∧ e.resourceServerId = resource.id ∧
      e.active now = true ∧ e.scope = scope := by
  have hsubject : ∀ e : ScopeEntitlement, (e.userId = some userId ∧
      userEntitlementMatchesOrganization e (some tenant) = true) ↔
        e.subject = .user userId tenant := by
    intro e
    unfold ScopeEntitlement.userId userEntitlementMatchesOrganization Subject.organizationId
    cases e.subject with
    | user id organizationId => simp [@eq_comm _ tenant]
    | application id => simp
    | agent id => simp
  simp only [Store.listActiveUserScopeEntitlements, List.mem_map, List.mem_filter,
    decide_eq_true_eq]
  constructor
  · rintro ⟨e, ⟨⟨he, huser, hresource, hactive⟩, hmatches⟩, hscope⟩
    exact ⟨e, he, (hsubject e).mp ⟨huser, hmatches⟩, hresource, hactive, hscope⟩
  · rintro ⟨e, he, hholder, hresource, hactive, hscope⟩
    obtain ⟨huser, hmatches⟩ := (hsubject e).mpr hholder
    exact ⟨e, ⟨⟨he, huser, hresource, hactive⟩, hmatches⟩, hscope⟩

/-- What a user effectively holds in a Context. -/
theorem exec_userEffectiveResourceScopes (s : Store) (userId : Id) (resource : ApiResource)
    (now : ℕ) (tenant : Option Id) :
    (∃ e, (userEffectiveResourceScopes userId resource now (some tenant)).exec s = (.error e, s) ∧
      ¬ContextDecodable s userId resource tenant) ∨
    ∃ scopes, (userEffectiveResourceScopes userId resource now (some tenant)).exec s =
      (.ok scopes, s) ∧ ContextDecodable s userId resource tenant ∧
        ∀ scope, scope ∈ scopes ↔
          scope ∈ resource.declaredScopes ∧ UserHolds s userId resource now tenant scope := by
  have hexec : (userEffectiveResourceScopes userId resource now (some tenant)).exec s =
      ((collect (contextMemberships s userId resource tenant) fun m =>
          resolveOrganizationMembershipScopes m.organizationId m.roles resource.id) >>=
        fun inherited => done (resource.currentRegistryScopes (resource.automaticScopes ++
          ((s.listActiveUserScopeEntitlements userId resource.id now).filter
            (userEntitlementMatchesOrganization · (some tenant))).map (·.scope) ++
          inherited.flatten))).exec s := by
    simp [userEffectiveResourceScopes, contextMemberships]
    rfl
  rw [hexec]
  rcases exec_collect_cases fun m (_ : m ∈ contextMemberships s userId resource tenant) =>
      exec_membershipScopes_cases s resource m with
    ⟨e, he, hnot⟩ | ⟨inherited, hok, hdecodable, hinherited⟩
  · refine .inl ⟨e, exec_bind_error _ he, fun h => hnot fun m hm => ?_⟩
    obtain ⟨hmember, huser, htenant⟩ := mem_contextMemberships.mp hm
    exact h m hmember huser htenant
  · refine .inr ⟨_, exec_bind_ok _ hok, fun m hmember huser htenant => ?_, fun scope => ?_⟩
    · exact hdecodable m (mem_contextMemberships.mpr ⟨hmember, huser, htenant⟩)
    · rw [mem_currentRegistryScopes, List.mem_append, List.mem_append, mem_contextGrants,
        mem_forall₂_flatten hinherited, and_comm, or_assoc]
      simp only [mem_contextMemberships, UserHolds, and_assoc]

/-- What an Application effectively holds. -/
theorem exec_applicationEffectiveResourceScopes (s : Store) (applicationId ownerOrganizationId : Id)
    (resource : ApiResource) (now : ℕ) :
    ∃ scopes, (applicationEffectiveResourceScopes applicationId ownerOrganizationId resource
        now).exec s = (.ok scopes, s) ∧
      ∀ scope, scope ∈ scopes ↔ scope ∈ resource.declaredScopes ∧
        ApplicationHolds s resource now applicationId ownerOrganizationId scope := by
  unfold applicationEffectiveResourceScopes ApplicationHolds
  cases hvisible : resource.activeVisibleToOrganization ownerOrganizationId with
  | false => exact ⟨[], rfl, by simp⟩
  | true =>
    refine ⟨_, rfl, fun scope => ?_⟩
    rw [mem_currentRegistryScopes, List.mem_append, and_comm]
    simp [Store.listActiveApplicationScopeEntitlements, and_assoc]

end Effective

end FlareAuth
