import FlareAuth.ResourceScopes

/-!
# Authorization contexts

Every request to a tenant is decided by the tenant and the scopes with which its
principal acts. A user acts with the scopes of the membership in the platform
Organization if there are any, and with those of the membership in the target
otherwise.
-/

namespace FlareAuth

abbrev AuthorizationTenant := Owner

def tenantKey : AuthorizationTenant → String
  | .user id => "user:" ++ id
  | .organization id => "organization:" ++ id

theorem tenantKey_inj {t u : AuthorizationTenant} : tenantKey t = tenantKey u ↔ t = u := by
  constructor
  · intro h
    have hchars := congrArg String.toList h
    cases t <;> cases u <;> simp [tenantKey, String.toList_inj] at hchars <;> simp [hchars]
  · rintro rfl
    rfl

inductive AuthorizationSubject where
  | user (id : Id)
  | agent (id : Id)
  | application (id : Id)
  | workload (id : Id)

structure AuthorizationContext where
  subject : AuthorizationSubject
  tenant : AuthorizationTenant
  scopes : List String

namespace AuthorizationContext

def authorize (c : AuthorizationContext) (target : AuthorizationTenant) (requiredScope : String) :
    Except Failure Unit :=
  if tenantKey c.tenant ≠ tenantKey target then
    .error (forbidden "The authenticated subject cannot access the target tenant.")
  else if !c.scopes.contains requiredScope then
    .error (forbidden ("OAuth scope \"" ++ requiredScope ++ "\" is required."))
  else .ok ()

def canAuthorize (c : AuthorizationContext) (target : AuthorizationTenant)
    (requiredScope : String) : Bool :=
  tenantKey c.tenant == tenantKey target && c.scopes.contains requiredScope

theorem canAuthorize_iff {c : AuthorizationContext} {target : AuthorizationTenant}
    {scope : String} :
    c.canAuthorize target scope = true ↔ c.tenant = target ∧ scope ∈ c.scopes := by
  simp [canAuthorize, tenantKey_inj]

theorem authorize_eq_ok {c : AuthorizationContext} {target : AuthorizationTenant}
    {scope : String} :
    c.authorize target scope = .ok () ↔ c.tenant = target ∧ scope ∈ c.scopes := by
  unfold authorize
  by_cases htenant : c.tenant = target
  · by_cases hscope : scope ∈ c.scopes <;> simp [htenant, hscope]
  · simp [tenantKey_inj, htenant]

end AuthorizationContext

namespace Directory

def findPlatformOrganization (d : Directory) : Option Organization :=
  d.organizations.find? fun o => o.slug = "realmroot"

def requirePlatformOrganization (d : Directory) : Except Failure Organization :=
  d.findPlatformOrganization.elim
    (.error (.error "The built-in platform Organization is unavailable.")) .ok

def findRealmrootResourceServer (d : Directory) : Option ApiResource :=
  d.resources.find? fun r => r.isRealmroot ∧ r.deletedAt = none

/-- `resolveOrganizationMembershipScopesForResource`, at one moment. -/
def resolveOrganizationMembershipScopes (d : Directory) (organizationId : Id) (roles : List String)
    (resource : ApiResource) : Except Failure (List String) := do
  let predefined ←
    (if resource.isRealmroot then roles.mapM predefinedOrganizationRoleScopes else .ok [])
  let dynamic := roles.flatMap fun role =>
    ((d.listOrganizationRoleScopes organizationId role).filter fun item =>
      item.resourceId = resource.id).map (·.scope)
  return membershipScopes organizationId roles resource
    (Text.unique (predefined.flatten ++ dynamic))

def resolveOrganizationUserAuthorizationContext (d : Directory) (organizationId userId : Id) :
    Except Failure AuthorizationContext := do
  let scopes ← match d.findMemberByOrganizationUser organizationId userId,
      d.findRealmrootResourceServer with
    | some member, some realmroot =>
      d.resolveOrganizationMembershipScopes organizationId member.roles realmroot
    | _, _ => .ok []
  return ⟨.user userId, .organization organizationId, scopes⟩

end Directory

/-- Read alone, the scopes of a membership are those of the directory of that moment. -/
theorem exec_resolveOrganizationMembershipScopes (organizationId : Id) (roles : List String)
    (resource : ApiResource) (s : Store) :
    (resolveOrganizationMembershipScopesForResource organizationId roles (some resource)).exec s =
      (s.directory.resolveOrganizationMembershipScopes organizationId roles resource, s) := by
  unfold resolveOrganizationMembershipScopesForResource
    Directory.resolveOrganizationMembershipScopes
  dsimp only
  cases hpredefined : (if resource.isRealmroot then roles.mapM predefinedOrganizationRoleScopes
      else .ok []) with
  | error e => rfl
  | ok predefined => rfl

structure ApplicationPrincipal where
  id : Id
  ownerOrganizationId : Id
  scopes : List String

structure AgentPrincipal where
  identityId : Id
  scopes : List String
  authority : Option Owner

/-- The principal of a request. An Application that acts for a user comes with the user. -/
structure Principal where
  user : Option Id
  application : Option ApplicationPrincipal
  agent : Option AgentPrincipal

def selfScopes : List String :=
  ["self:read", "self:write", "agents:read", "agents:write", "audit-events:read"]

section Resolution

variable (d : Directory) (p : Principal)

def restrictUserContextToApplicationScopes (c : AuthorizationContext) : AuthorizationContext :=
  match p.application with
  | none => c
  | some application => { c with scopes := c.scopes.filter application.scopes.contains }

def resolvePlatformOrganizationContext (platformId : Id) : Except Failure AuthorizationContext :=
  match p.user, p.application, p.agent with
  | some userId, _, _ => do
    return restrictUserContextToApplicationScopes p
      (← d.resolveOrganizationUserAuthorizationContext platformId userId)
  | none, some application, _ => .ok
    ⟨.application application.id, .organization application.ownerOrganizationId,
      if application.ownerOrganizationId = platformId then application.scopes else []⟩
  | none, none, some agent => .ok
    ⟨.agent agent.identityId, .organization platformId,
      if agent.authority = some (.organization platformId) then agent.scopes else []⟩
  | none, none, none => .error (unauthorized "Authentication is required.")

/-- The context of a user, after that of the platform Organization. -/
def resolveUserContext (userId : Id) (platform : AuthorizationContext) :
    AuthorizationTenant → Except Failure AuthorizationContext
  | .user id => .ok (restrictUserContextToApplicationScopes p
      ⟨.user userId, if platform.scopes.isEmpty then .user userId else .user id,
        platform.scopes ++ if userId = id then selfScopes else []⟩)
  | .organization id =>
    if !platform.scopes.isEmpty then .ok { platform with tenant := .organization id }
    else do
      return restrictUserContextToApplicationScopes p
        (← d.resolveOrganizationUserAuthorizationContext id userId)

def resolveAuthorizationContext (target : AuthorizationTenant) :
    Except Failure AuthorizationContext :=
  match p.user, p.application, p.agent with
  | some userId, _, _ => do
    let platform ← d.requirePlatformOrganization
    let platformContext ← resolvePlatformOrganizationContext d p platform.id
    resolveUserContext d p userId platformContext target
  | none, some application, _ => .ok
    ⟨.application application.id, .organization application.ownerOrganizationId, application.scopes⟩
  | none, none, some agent => do
    let platform ← d.requirePlatformOrganization
    return ⟨.agent agent.identityId,
      if agent.authority = some (.organization platform.id) then target
      else agent.authority.getD (.user ""), agent.scopes⟩
  | none, none, none => .error (unauthorized "Authentication is required.")

/-- `authorizeOrganization` and `authorizeUser`. -/
def authorizeTenant (target : AuthorizationTenant) (requiredScope : String) :
    Except Failure Unit := do
  (← resolveAuthorizationContext d p target).authorize target requiredScope

def authorizeOrganization (organizationId : Id) (requiredScope : String) : Except Failure Unit :=
  authorizeTenant d p (.organization organizationId) requiredScope

def authorizeUser (userId : Id) (requiredScope : String) : Except Failure Unit :=
  authorizeTenant d p (.user userId) requiredScope

/-- A point request for the tenant passes. -/
def Authorized (target : AuthorizationTenant) (scope : String) : Prop :=
  authorizeTenant d p target scope = .ok ()

instance (target : AuthorizationTenant) (scope : String) :
    Decidable (Authorized d p target scope) :=
  match h : authorizeTenant d p target scope with
  | .ok () => .isTrue h
  | .error _ => .isFalse fun hok => nomatch h.symm.trans hok

end Resolution

section Held

variable {d d' : Directory} {p : Principal} {organizationId userId : Id} {scope : String}

/-- No role of the membership has the name of a property which every object inherits. -/
def Directory.Readable (d : Directory) (organizationId userId : Id) : Prop :=
  d.findRealmrootResourceServer.isSome = true → ∀ m,
    d.findMemberByOrganizationUser organizationId userId = some m →
      ∀ role ∈ m.roles, role ∉ objectPrototype

theorem predefinedOrganizationRoleScopes_ok_iff {role : String} :
    (∃ scopes, predefinedOrganizationRoleScopes role = .ok scopes) ↔ role ∉ objectPrototype := by
  unfold predefinedOrganizationRoleScopes
  split
  · rename_i h
    subst h
    exact ⟨fun _ => by decide, fun _ => ⟨_, rfl⟩⟩
  split
  · rename_i h
    subst h
    exact ⟨fun _ => by decide, fun _ => ⟨_, rfl⟩⟩
  split
  · rename_i h
    subst h
    exact ⟨fun _ => by decide, fun _ => ⟨_, rfl⟩⟩
  split
  · rename_i h
    subst h
    exact ⟨fun _ => by decide, fun _ => ⟨_, rfl⟩⟩
  split
  · rename_i h
    rw [List.contains_iff_mem] at h
    simp [h]
  · rename_i h
    rw [List.contains_iff_mem] at h
    simp [h]

theorem mapM_predefined_ok {roles : List String} (h : ∀ role ∈ roles, role ∉ objectPrototype) :
    ∃ scopes, roles.mapM predefinedOrganizationRoleScopes = .ok scopes := by
  induction roles with
  | nil => exact ⟨[], rfl⟩
  | cons role roles ih =>
    obtain ⟨scopes, hscopes⟩ :=
      predefinedOrganizationRoleScopes_ok_iff.mpr (h role List.mem_cons_self)
    obtain ⟨rest, hrest⟩ := ih fun r hr => h r (List.mem_cons_of_mem _ hr)
    refine ⟨scopes :: rest, ?_⟩
    rw [List.mapM_cons, hscopes, hrest]
    rfl

theorem mapM_predefined_cons {role : String} {roles : List String} {scopes : List (List String)}
    (h : (role :: roles).mapM predefinedOrganizationRoleScopes = .ok scopes) :
    ∃ own rest, predefinedOrganizationRoleScopes role = .ok own ∧
      roles.mapM predefinedOrganizationRoleScopes = .ok rest ∧ scopes = own :: rest := by
  rw [List.mapM_cons] at h
  cases hrole : predefinedOrganizationRoleScopes role with
  | error e =>
    rw [hrole] at h
    cases h
  | ok own =>
    rw [hrole] at h
    cases hrest : roles.mapM predefinedOrganizationRoleScopes with
    | error e =>
      rw [hrest] at h
      cases h
    | ok rest =>
      rw [hrest] at h
      cases h
      exact ⟨own, rest, rfl, rfl, rfl⟩

/-- Roles whose scopes are read are named apart from the prototype. -/
theorem mapM_predefined_named {roles : List String} {scopes : List (List String)}
    (h : roles.mapM predefinedOrganizationRoleScopes = .ok scopes) :
    ∀ role ∈ roles, role ∉ objectPrototype := by
  induction roles generalizing scopes with
  | nil => exact fun _ hrole => nomatch hrole
  | cons role roles ih =>
    obtain ⟨own, rest, hrole, hrest, rfl⟩ := mapM_predefined_cons h
    have hname := predefinedOrganizationRoleScopes_ok_iff.mp ⟨own, hrole⟩
    exact List.forall_mem_cons.mpr ⟨hname, ih hrest⟩

theorem mem_mapM_predefined {roles : List String} {scopes : List (List String)}
    (h : roles.mapM predefinedOrganizationRoleScopes = .ok scopes) :
    scope ∈ scopes.flatten ↔
      ∃ role ∈ roles, ∃ own, predefinedOrganizationRoleScopes role = .ok own ∧ scope ∈ own := by
  induction roles generalizing scopes with
  | nil =>
    cases h
    simp
  | cons role roles ih =>
    obtain ⟨own, rest, hrole, hrest, rfl⟩ := mapM_predefined_cons h
    have hmem := ih hrest
    simp [hmem, hrole]

def Directory.RoleGives (d : Directory) (organizationId userId : Id) (scope : String) : Prop :=
  ∃ m r, d.findMemberByOrganizationUser organizationId userId = some m ∧
    d.findRealmrootResourceServer = some r ∧ ∃ role ∈ m.roles,
      (∃ own, predefinedOrganizationRoleScopes role = .ok own ∧ scope ∈ own) ∨
        ⟨r.id, scope⟩ ∈ d.listOrganizationRoleScopes organizationId role

/-- What resolving a membership comes to: a failure at an inherited name, and otherwise the
management scopes that its roles give. -/
theorem resolveOrganizationUser_cases (d : Directory) (organizationId userId : Id) :
    (∃ e, d.resolveOrganizationUserAuthorizationContext organizationId userId = .error e ∧
      ¬d.Readable organizationId userId) ∨
    ∃ scopes, d.resolveOrganizationUserAuthorizationContext organizationId userId =
        .ok ⟨.user userId, .organization organizationId, scopes⟩ ∧
      d.Readable organizationId userId ∧ ∀ scope, scope ∈ scopes ↔
        inScopeRegistry scope = true ∧ d.RoleGives organizationId userId scope := by
  unfold Directory.resolveOrganizationUserAuthorizationContext Directory.Readable
    Directory.RoleGives
  cases hm : d.findMemberByOrganizationUser organizationId userId with
  | none => exact .inr ⟨[], rfl, by simp, by simp⟩
  | some m =>
    cases hr : d.findRealmrootResourceServer with
    | none => exact .inr ⟨[], rfl, by simp, by simp⟩
    | some r =>
      have hrealmroot : r.isRealmroot = true := by
        have hfound := List.find?_some hr
        simp only [decide_eq_true_eq] at hfound
        exact hfound.1
      dsimp only [Directory.resolveOrganizationMembershipScopes]
      rw [if_pos hrealmroot]
      cases hpredefined : m.roles.mapM predefinedOrganizationRoleScopes with
      | error e =>
        refine .inl ⟨e, rfl, fun hreadable => ?_⟩
        obtain ⟨scopes, hscopes⟩ := mapM_predefined_ok (hreadable rfl m rfl)
        rw [hscopes] at hpredefined
        cases hpredefined
      | ok predefined =>
        refine .inr ⟨_, rfl, ?_, fun scope => ?_⟩
        · rintro _ _ ⟨⟩
          exact mapM_predefined_named hpredefined
        · have hmem : scope ∈ predefined.flatten ↔ _ := mem_mapM_predefined hpredefined
          simp only [membershipScopes, hrealmroot, if_true, Text.mem_sort, List.mem_filter,
            Text.mem_unique, List.mem_append, hmem, List.mem_flatMap, List.mem_map,
            decide_eq_true_eq, Option.some.injEq]
          constructor
          · rintro ⟨hgiven, hregistry⟩
            refine ⟨hregistry, m, r, rfl, rfl, ?_⟩
            rcases hgiven with ⟨role, hrole, hown⟩ | ⟨role, hrole, item, ⟨hitem, hresource⟩, hscope⟩
            · exact ⟨role, hrole, .inl hown⟩
            · refine ⟨role, hrole, .inr ?_⟩
              rw [← hresource, ← hscope]
              exact hitem
          · rintro ⟨hregistry, m', r', rfl, rfl, role, hrole, hown | hitem⟩
            · exact ⟨.inl ⟨role, hrole, hown⟩, hregistry⟩
            · exact ⟨.inr ⟨role, hrole, _, ⟨hitem, rfl⟩, rfl⟩, hregistry⟩

/-- The Application that acts for the user, if there is one, has the scope. -/
def Principal.Allows (p : Principal) (scope : String) : Prop :=
  ∀ a, p.application = some a → scope ∈ a.scopes

theorem mem_restrictUserContext {c : AuthorizationContext} :
    scope ∈ (restrictUserContextToApplicationScopes p c).scopes ↔
      scope ∈ c.scopes ∧ p.Allows scope := by
  unfold restrictUserContextToApplicationScopes Principal.Allows
  cases p.application with
  | none => simp
  | some a => simp

@[simp] theorem restrictUserContext_tenant {c : AuthorizationContext} :
    (restrictUserContextToApplicationScopes p c).tenant = c.tenant := by
  unfold restrictUserContextToApplicationScopes
  split <;> rfl

/-- The scope is one of the membership, and within those of the Application. -/
def Principal.Holds (p : Principal) (d : Directory) (organizationId userId : Id)
    (scope : String) : Prop :=
  d.Readable organizationId userId ∧ inScopeRegistry scope = true ∧
    d.RoleGives organizationId userId scope ∧ p.Allows scope

/-- What the user has at a tenant besides the scopes of the platform Organization: the scopes
of the own account, and where no platform scope is held those of the membership. -/
def Principal.HoldsBeside (p : Principal) (d : Directory) (platformId userId : Id)
    (scope : String) : AuthorizationTenant → Prop
  | .user id => userId = id ∧ scope ∈ selfScopes ∧ p.Allows scope
  | .organization id => (∀ other, ¬p.Holds d platformId userId other) ∧ p.Holds d id userId scope

theorem resolvePlatform_cases (hu : p.user = some userId) (platformId : Id) :
    (∃ e, resolvePlatformOrganizationContext d p platformId = .error e ∧
      ¬d.Readable platformId userId) ∨
    ∃ c, resolvePlatformOrganizationContext d p platformId = .ok c ∧
      c.tenant = .organization platformId ∧ d.Readable platformId userId ∧
      ∀ scope, scope ∈ c.scopes ↔ p.Holds d platformId userId scope := by
  simp only [resolvePlatformOrganizationContext, hu]
  rcases resolveOrganizationUser_cases d platformId userId with
    ⟨e, he, hunreadable⟩ | ⟨scopes, hok, hreadable, hmem⟩
  · exact .inl ⟨e, by rw [he]; rfl, hunreadable⟩
  · refine .inr ⟨_, by rw [hok]; rfl, by simp, hreadable, fun scope => ?_⟩
    rw [mem_restrictUserContext, hmem, Principal.Holds]
    tauto

theorem authorized_iff {target : AuthorizationTenant} : Authorized d p target scope ↔
    ∃ c, resolveAuthorizationContext d p target = .ok c ∧ c.tenant = target ∧ scope ∈ c.scopes := by
  unfold Authorized authorizeTenant
  cases resolveAuthorizationContext d p target with
  | error e =>
    constructor
    · rintro ⟨⟩
    · rintro ⟨_, ⟨⟩, _⟩
  | ok c =>
    refine ⟨fun h => ⟨c, rfl, AuthorizationContext.authorize_eq_ok.mp h⟩, ?_⟩
    rintro ⟨_, ⟨⟩, h⟩
    exact AuthorizationContext.authorize_eq_ok.mpr h

theorem isEmpty_eq_false_iff_exists {scopes : List String} :
    scopes.isEmpty = false ↔ ∃ scope, scope ∈ scopes := by
  cases scopes with
  | nil => simp
  | cons scope scopes => exact ⟨fun _ => ⟨scope, List.mem_cons_self⟩, fun _ => rfl⟩

/-- What a user has in the context that follows that of the platform Organization. -/
theorem userContext_iff {platform : AuthorizationContext} {platformId : Id}
    (hplatform : ∀ scope, scope ∈ platform.scopes ↔ p.Holds d platformId userId scope)
    (target : AuthorizationTenant) :
    (∃ c, resolveUserContext d p userId platform target = .ok c ∧ c.tenant = target ∧
      scope ∈ c.scopes) ↔
    (p.Holds d platformId userId scope ∨ p.HoldsBeside d platformId userId scope target) := by
  cases target with
  | user id =>
    simp only [resolveUserContext, Except.ok.injEq, exists_eq_left', restrictUserContext_tenant,
      mem_restrictUserContext, List.mem_append, hplatform, Principal.HoldsBeside]
    constructor
    · rintro ⟨_, hheld | hself, hallows⟩
      · exact .inl hheld
      · split at hself
        · rename_i hsame
          exact .inr ⟨hsame, hself, hallows⟩
        · cases hself
    · rintro (hheld | ⟨rfl, hself, hallows⟩)
      · have hnonempty := isEmpty_eq_false_iff_exists.mpr ⟨scope, (hplatform scope).mpr hheld⟩
        rw [hnonempty]
        exact ⟨rfl, .inl hheld, hheld.2.2.2⟩
      · rw [if_pos rfl, ite_self]
        exact ⟨rfl, .inr hself, hallows⟩
  | organization id =>
    simp only [resolveUserContext, Principal.HoldsBeside]
    cases hempty : platform.scopes.isEmpty with
    | false =>
      obtain ⟨other, hother⟩ := isEmpty_eq_false_iff_exists.mp hempty
      simp only [Bool.not_false, if_true, Except.ok.injEq, exists_eq_left', hplatform, true_and]
      refine ⟨.inl, ?_⟩
      rintro (hheld | ⟨hnone, _⟩)
      · exact hheld
      · exact absurd ((hplatform other).mp hother) (hnone other)
    | true =>
      have hnone : ∀ other, ¬p.Holds d platformId userId other := by
        intro other hheld
        rw [List.isEmpty_iff.mp hempty] at hplatform
        exact List.not_mem_nil ((hplatform other).mpr hheld)
      rw [if_neg (by simp)]
      rcases resolveOrganizationUser_cases d id userId with
        ⟨e, he, hunreadable⟩ | ⟨scopes, hok, hreadable, hmem⟩
      · rw [he]
        constructor
        · rintro ⟨_, ⟨⟩, _⟩
        · rintro (hheld | ⟨_, hheld⟩)
          · exact absurd hheld (hnone scope)
          · exact absurd hheld.1 hunreadable
      · rw [hok]
        let c := restrictUserContextToApplicationScopes p ⟨.user userId, .organization id, scopes⟩
        change (∃ c', (Except.ok c : Except Failure AuthorizationContext) = .ok c' ∧ _) ↔ _
        have hscope : scope ∈ c.scopes ↔ scope ∈ scopes ∧ p.Allows scope :=
          mem_restrictUserContext
        simp only [Except.ok.injEq, exists_eq_left', hscope, hmem]
        have htenant : c.tenant = .organization id := restrictUserContext_tenant
        constructor
        · rintro ⟨_, ⟨hregistry, hgives⟩, hallows⟩
          exact .inr ⟨hnone, hreadable, hregistry, hgives, hallows⟩
        · rintro (hheld | ⟨_, _, hregistry, hgives, hallows⟩)
          · exact absurd hheld (hnone scope)
          · exact ⟨htenant, ⟨hregistry, hgives⟩, hallows⟩

/-- A user passes with a platform scope, whatever the tenant, or with what there is beside. -/
theorem authorized_user_iff (hu : p.user = some userId) {target : AuthorizationTenant} :
    Authorized d p target scope ↔ ∃ platform, d.findPlatformOrganization = some platform ∧
      d.Readable platform.id userId ∧ (p.Holds d platform.id userId scope ∨
        p.HoldsBeside d platform.id userId scope target) := by
  rw [authorized_iff, resolveAuthorizationContext, hu, Directory.requirePlatformOrganization]
  cases d.findPlatformOrganization with
  | none =>
    constructor
    · rintro ⟨_, ⟨⟩, _⟩
    · rintro ⟨_, ⟨⟩, _⟩
  | some platform =>
    change (∃ c, (resolvePlatformOrganizationContext d p platform.id >>= fun platformContext =>
      resolveUserContext d p userId platformContext target) = .ok c ∧ _) ↔ _
    rcases resolvePlatform_cases (d := d) hu platform.id with
      ⟨e, he, hunreadable⟩ | ⟨c, hok, _, hreadable, hmem⟩
    · rw [he]
      constructor
      · rintro ⟨_, ⟨⟩, _⟩
      · rintro ⟨_, ⟨⟩, hreadable, _⟩
        exact absurd hreadable hunreadable
    · rw [hok]
      change (∃ c', resolveUserContext d p userId c target = .ok c' ∧ _) ↔ _
      rw [userContext_iff hmem]
      constructor
      · exact fun h => ⟨platform, rfl, hreadable, h⟩
      · rintro ⟨_, ⟨⟩, _, h⟩
        exact h

end Held

section Additions

variable {d d' : Directory} {p : Principal} {platformId userId : Id} {scope : String}
  {target : AuthorizationTenant}

/-- The second state differs from the first by added memberships, added roles of a membership, and
added scopes of roles. -/
structure Directory.Extends (d d' : Directory) : Prop where
  organizations : d'.organizations = d.organizations
  resources : d'.resources = d.resources
  memberships : ∀ organizationId userId m,
    d.findMemberByOrganizationUser organizationId userId = some m →
      ∃ m', d'.findMemberByOrganizationUser organizationId userId = some m' ∧ m.roles ⊆ m'.roles
  roleScopes : ∀ organizationId role, d.listOrganizationRoleScopes organizationId role ⊆
    d'.listOrganizationRoleScopes organizationId role

theorem Directory.Extends.findPlatformOrganization (h : d.Extends d') :
    d'.findPlatformOrganization = d.findPlatformOrganization := by
  rw [Directory.findPlatformOrganization, h.organizations]
  rfl

theorem Directory.Extends.roleGives (h : d.Extends d') {organizationId : Id}
    (hgives : d.RoleGives organizationId userId scope) :
    d'.RoleGives organizationId userId scope := by
  obtain ⟨m, r, hm, hr, role, hrole, hscope⟩ := hgives
  obtain ⟨m', hm', hroles⟩ := h.memberships _ _ m hm
  have hr' : d'.findRealmrootResourceServer = some r := by
    rw [Directory.findRealmrootResourceServer, h.resources]
    exact hr
  refine ⟨m', r, hm', hr', role, hroles hrole, ?_⟩
  rcases hscope with hown | hitem
  · exact .inl hown
  · exact .inr (h.roleScopes _ _ hitem)

theorem Principal.Holds.extends {organizationId : Id}
    (hheld : p.Holds d organizationId userId scope) (h : d.Extends d')
    (hreadable : d'.Readable organizationId userId) : p.Holds d' organizationId userId scope :=
  ⟨hreadable, hheld.2.1, h.roleGives hheld.2.2.1, hheld.2.2.2⟩

/-- The addition takes from the user what was held: a role with an inherited name was added, or
there are now platform scopes, none of them the required one, in place of those of the target. -/
def Principal.Displaced (p : Principal) (d d' : Directory) (platformId userId : Id)
    (scope : String) (target : AuthorizationTenant) : Prop :=
  d.Readable platformId userId ∧
    (((p.Holds d platformId userId scope ∨ p.HoldsBeside d platformId userId scope target) ∧
        ¬d'.Readable platformId userId) ∨
      ∃ organizationId, target = .organization organizationId ∧
        p.HoldsBeside d platformId userId scope target ∧ ¬p.Holds d' platformId userId scope ∧
          ((∃ other, p.Holds d' platformId userId other) ∨ ¬d'.Readable organizationId userId))

/-- No user is displaced. -/
def Principal.Keeps (p : Principal) (d d' : Directory) (scope : String)
    (target : AuthorizationTenant) : Prop :=
  ∀ userId platform, p.user = some userId → d.findPlatformOrganization = some platform →
    ¬p.Displaced d d' platform.id userId scope target

theorem resolveAuthorizationContext_extends (h : d.Extends d') (hu : p.user = none)
    (target : AuthorizationTenant) :
    resolveAuthorizationContext d' p target = resolveAuthorizationContext d p target := by
  unfold resolveAuthorizationContext Directory.requirePlatformOrganization
  rw [hu, h.findPlatformOrganization]
  cases p.application with
  | some application => rfl
  | none => cases p.agent <;> rfl

/-- The user that is not displaced keeps the tenant. -/
theorem holds_of_not_displaced (h : d.Extends d') (hreadable : d.Readable platformId userId)
    (hheld : p.Holds d platformId userId scope ∨ p.HoldsBeside d platformId userId scope target)
    (hkeeps : ¬p.Displaced d d' platformId userId scope target) :
    d'.Readable platformId userId ∧ (p.Holds d' platformId userId scope ∨
      p.HoldsBeside d' platformId userId scope target) := by
  have hreadable' : d'.Readable platformId userId :=
    Classical.byContradiction fun hunreadable =>
      hkeeps ⟨hreadable, .inl ⟨hheld, hunreadable⟩⟩
  refine ⟨hreadable', ?_⟩
  rcases hheld with hheld | hbeside
  · exact .inl (hheld.extends h hreadable')
  by_cases hheld' : p.Holds d' platformId userId scope
  · exact .inl hheld'
  refine .inr ?_
  cases target with
  | user id => exact hbeside
  | organization organizationId =>
    have hnone : ¬∃ other, p.Holds d' platformId userId other := fun hsome =>
      hkeeps ⟨hreadable, .inr ⟨organizationId, rfl, hbeside, hheld', .inl hsome⟩⟩
    have horganization : d'.Readable organizationId userId :=
      Classical.byContradiction fun hunreadable =>
        hkeeps ⟨hreadable, .inr ⟨organizationId, rfl, hbeside, hheld', .inr hunreadable⟩⟩
    exact ⟨fun other hother => hnone ⟨other, hother⟩, hbeside.2.extends h horganization⟩

/-- An addition keeps what was authorized just when it displaces no user. -/
theorem authorized_extends_iff (h : d.Extends d') :
    (Authorized d p target scope → Authorized d' p target scope) ↔ p.Keeps d d' scope target := by
  cases hu : p.user with
  | none =>
    refine ⟨fun _ userId _ hsome => ?_, fun _ hauthorized => ?_⟩
    · rw [hu] at hsome
      cases hsome
    · rw [authorized_iff] at hauthorized ⊢
      rw [resolveAuthorizationContext_extends h hu]
      exact hauthorized
  | some userId =>
    rw [authorized_user_iff hu, authorized_user_iff hu, h.findPlatformOrganization]
    constructor
    · rintro hmono _ platform hsome hplatform ⟨hreadable, hlost⟩
      obtain rfl : userId = _ := Option.some.inj (hu.symm.trans hsome)
      have hheld : p.Holds d platform.id userId scope ∨
          p.HoldsBeside d platform.id userId scope target := by
        rcases hlost with ⟨hheld, _⟩ | ⟨_, _, hbeside, _⟩
        · exact hheld
        · exact .inr hbeside
      obtain ⟨platform', hplatform', hreadable', hheld'⟩ :=
        hmono ⟨platform, hplatform, hreadable, hheld⟩
      obtain rfl : platform = platform' := Option.some.inj (hplatform.symm.trans hplatform')
      rcases hlost with ⟨_, hunreadable⟩ | ⟨organizationId, rfl, _, hnot, hlost⟩
      · exact hunreadable hreadable'
      · rcases hheld' with hheld' | ⟨hnone, hmember⟩
        · exact hnot hheld'
        · rcases hlost with ⟨other, hother⟩ | hunreadable
          · exact hnone other hother
          · exact hunreadable hmember.1
    · rintro hkeeps ⟨platform, hplatform, hreadable, hheld⟩
      obtain ⟨hreadable', hheld'⟩ :=
        holds_of_not_displaced h hreadable hheld (hkeeps userId platform hu hplatform)
      exact ⟨platform, hplatform, hreadable', hheld'⟩

end Additions

section Samples

namespace Sample

def realmrootServer : ApiResource where
  id := "realmroot-id"
  identifier := "realmroot"
  resourceUrl := "https://realm/api"
  authorizationModel := .native
  connectorId := none
  authorizationDetails := []
  enabled := true
  ownerOrganizationId := "platform"
  visibility := .publicResource
  scopeRegistry := none
  availableToAgents := true
  deletedAt := none

/-- A user that owns one Organization. -/
def ownerDirectory : Directory where
  organizations := [⟨"platform", "realmroot", false⟩, ⟨"o", "acme", false⟩]
  members := [⟨"o", "u", ["owner"]⟩]
  resources := [realmrootServer]

/-- The same user with one more membership. -/
def ownerDirectoryWith (m : Member) : Directory :=
  { ownerDirectory with members := ownerDirectory.members ++ [m] }

theorem ownerDirectory_extends (m : Member) : ownerDirectory.Extends (ownerDirectoryWith m) where
  organizations := rfl
  resources := rfl
  memberships organizationId userId found hfound := by
    refine ⟨found, ?_, fun _ h => h⟩
    unfold Directory.findMemberByOrganizationUser at hfound ⊢
    rw [ownerDirectoryWith, List.find?_append, hfound]
    rfl
  roleScopes _ _ _ h := h

def ownerPrincipal : Principal := ⟨some "u", none, none⟩

end Sample

theorem authorized_extends_sample :
    Authorized (Sample.ownerDirectoryWith ⟨"other", "u", ["member"]⟩) Sample.ownerPrincipal
      (.organization "o") "applications:write" := by
  refine (authorized_extends_iff (Sample.ownerDirectory_extends _)).mpr ?_ (by decide +kernel)
  rintro _ platform ⟨⟩ ⟨⟩ ⟨_, ⟨_, hunreadable⟩ | ⟨_, ⟨⟩, _, _, ⟨_, hheld⟩ | hunreadable⟩⟩
  · refine hunreadable fun _ m hm => ?_
    cases hm
  · obtain ⟨_, _, ⟨m, _, hm, _⟩, _⟩ := hheld
    cases hm
  · refine hunreadable fun _ m hm => ?_
    cases hm
    decide

/-- The owner of an Organization who becomes a member of the platform Organization can no longer
write the own Organization's Applications. -/
theorem platform_membership_displaces :
    Sample.ownerDirectory.Extends (Sample.ownerDirectoryWith ⟨"platform", "u", ["member"]⟩) ∧
    Authorized Sample.ownerDirectory Sample.ownerPrincipal (.organization "o")
      "applications:write" ∧
    ¬Authorized (Sample.ownerDirectoryWith ⟨"platform", "u", ["member"]⟩) Sample.ownerPrincipal
      (.organization "o") "applications:write" :=
  ⟨Sample.ownerDirectory_extends _, by decide +kernel, by decide +kernel⟩

end Samples

end FlareAuth
