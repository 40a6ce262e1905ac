import FlareAuth.AccessOperation

/-!
# Scopes of Resource Servers

The scope registries, the visibility rules, and the scopes which a user, an
Application, a membership and an Agent's controller effectively hold.
-/

namespace FlareAuth

open Concurrent Procedure Access

def realmrootManagementScopes : List String :=
  ["applications:read", "applications:write", "users:read", "users:write", "organizations:read",
    "organizations:write", "organizations:delete", "roles:read", "roles:write",
    "role-assignments:read", "role-assignments:write", "resource-servers:read",
    "resource-servers:write", "connectors:read", "connectors:write", "settings:read",
    "settings:write", "security:read", "security:write", "readiness:read", "webhooks:read",
    "webhooks:write", "agents:read", "agents:write", "permissions:read", "permissions:write",
    "audit-events:read"]

def agentBootstrapScopes : List String :=
  ["agent:read", "resource-servers:read", "authorization-details:read", "access-requests:read",
    "access-requests:write"]

def realmrootOAuthScopes : List String :=
  Text.unique (agentBootstrapScopes ++ realmrootManagementScopes)

/-- The properties which every object inherits, and which `in` therefore finds. -/
def objectPrototype : List String :=
  ["constructor", "__defineGetter__", "__defineSetter__", "hasOwnProperty", "__lookupGetter__",
    "__lookupSetter__", "isPrototypeOf", "propertyIsEnumerable", "toString", "valueOf",
    "__proto__", "toLocaleString"]

/-- `scope in realmrootScopeRegistry`. -/
def inScopeRegistry (scope : String) : Bool :=
  realmrootManagementScopes.contains scope || objectPrototype.contains scope

/-- The scopes of a predefined role. Iterating over an inherited property throws. -/
def predefinedOrganizationRoleScopes (role : String) : Except Failure (List String) :=
  if role = "owner" then .ok realmrootManagementScopes
  else if role = "admin" then
    .ok (realmrootManagementScopes.filter fun s =>
      s != "organizations:delete" && s != "roles:write")
  else if role = "developer" then
    .ok ["applications:read", "applications:write", "users:read", "organizations:read",
      "roles:read", "role-assignments:read", "resource-servers:read", "resource-servers:write",
      "connectors:read", "webhooks:read", "webhooks:write", "agents:read", "audit-events:read"]
  else if role = "member" then .ok ["organizations:read", "users:read"]
  else if objectPrototype.contains role then
    .error (.error "predefinedOrganizationRoleScopes[role] is not iterable")
  else .ok []

namespace ApiResource

/-- `isRealmrootResourceServer`. -/
def isRealmroot (r : ApiResource) : Bool := r.identifier == "realmroot"

def visibleToOrganization (r : ApiResource) (organizationId : Id) : Bool :=
  r.visibility == .publicResource || r.ownerOrganizationId == organizationId

def activeVisibleToOrganization (r : ApiResource) (organizationId : Id) : Bool :=
  r.enabled && r.visibleToOrganization organizationId

def activePublic (r : ApiResource) : Bool := r.enabled && r.visibility == .publicResource

def activeVisibleToAgent (r : ApiResource) (organizationIds : List Id) : Bool :=
  r.activePublic || organizationIds.any r.activeVisibleToOrganization

/-- The scopes of the registry, none if it was never discovered. -/
def registryScopes (r : ApiResource) : List ResourceScope := r.scopeRegistry.getD []

def declaredScopes (r : ApiResource) : List String := r.registryScopes.map (·.value)

def scopesOfMode (r : ApiResource) (mode : GrantMode) : List String :=
  (r.registryScopes.filter fun s => s.grantMode = mode).map (·.value)

def automaticScopes (r : ApiResource) : List String := r.scopesOfMode .automatic

def currentRegistryScopes (r : ApiResource) (scopes : List String) : List String :=
  Text.sort ((Text.unique scopes).filter r.declaredScopes.contains)

/-- `discoverAgentResourceScopes`. -/
def agentScopes (r : ApiResource) : List String :=
  if r.isRealmroot then realmrootOAuthScopes else r.declaredScopes

def requiresAccountConnection (r : ApiResource) : Bool := r.authorizationModel == .external

end ApiResource

def validateRequestedScopes (registry : List String) (requestedScopes : List String) :
    Except Failure Unit :=
  if requestedScopes.any fun scope => !registry.contains scope then
    .error (badRequest "Requested scope is not declared by the Resource Server scope registry.")
  else .ok ()

def validateResourceRequestedScopes (resource : ApiResource) (scopes : List String) :
    Except Failure Unit :=
  if resource.isRealmroot then
    if scopes.any fun scope => !realmrootOAuthScopes.contains scope then
      .error (badRequest "Requested scope is not declared by the Realmroot scope registry.")
    else .ok ()
  else validateRequestedScopes resource.declaredScopes scopes

def assertScopeSubset (requested allowed : List String) (boundary : String) :
    Except Failure Unit :=
  let missing := requested.filter fun scope => !allowed.contains scope
  if missing.isEmpty then .ok ()
  else .error (badRequest ("Requested scopes exceed the " ++ boundary ++ " boundary: " ++
    String.intercalate ", " missing ++ "."))

theorem assertScopeSubset_eq_ok {requested allowed : List String} {boundary : String} {u : Unit} :
    assertScopeSubset requested allowed boundary = .ok u ↔
      ∀ scope ∈ requested, scope ∈ allowed := by
  have hmissing : (requested.filter fun scope => !allowed.contains scope).isEmpty = true ↔
      ∀ scope ∈ requested, scope ∈ allowed := by
    rw [List.isEmpty_iff, List.filter_eq_nil_iff]
    simp
  rw [← hmissing]
  unfold assertScopeSubset
  dsimp only
  split
  · next h => exact iff_of_true rfl h
  · next h => exact iff_of_false (fun hok => nomatch hok) h

def exactScopes (left right : List String) : Bool :=
  left.length == right.length && Text.sort left == Text.sort right

def filterCurrentResourceScopes (resource : ApiResource) (organizationId : Id)
    (scopes : List String) : List String :=
  if scopes.isEmpty || !resource.activeVisibleToOrganization organizationId then []
  else if resource.isRealmroot then Text.sort (scopes.filter inScopeRegistry)
  else Text.sort (scopes.filter (resource.scopesOfMode .assigned).contains)

def membershipScopes (organizationId : Id) (roles : List String) (resource : ApiResource)
    (scopes : List String) : List String :=
  if resource.isRealmroot then Text.sort (scopes.filter inScopeRegistry)
  else if scopes.isEmpty && !roles.contains "owner" then []
  else
    let owned := if resource.ownerOrganizationId = organizationId ∧ "owner" ∈ roles then
      resource.scopesOfMode .assigned else []
    filterCurrentResourceScopes resource organizationId (Text.unique (scopes ++ owned))

def resolveOrganizationMembershipScopesForResource (organizationId : Id) (roles : List String) :
    Option ApiResource → Access (List String)
  | none => done []
  | some resource => do
    let predefined ← Procedure.ofExcept
      (if resource.isRealmroot then roles.mapM predefinedOrganizationRoleScopes else .ok [])
    let dynamic ← look fun d => roles.flatMap fun role =>
      ((d.listOrganizationRoleScopes organizationId role).filter fun item =>
        item.resourceId = resource.id).map (·.scope)
    return membershipScopes organizationId roles resource
      (Text.unique (predefined.flatten ++ dynamic))

def resolveOrganizationMembershipScopes (organizationId : Id) (roles : List String)
    (resourceId : Id) : Access (List String) := do
  let resource ← look (·.findResource resourceId)
  resolveOrganizationMembershipScopesForResource organizationId roles resource

/-- The tenant whose authority a user acts with: an Organization, or the user's own. No tenant
at all considers every membership of the user. -/
abbrev TenantOrganization := Option (Option Id)

def tenantMemberships (memberships : List Member) : TenantOrganization → List Member
  | none => memberships
  | some none => []
  | some (some organizationId) => memberships.filter fun m => m.organizationId = organizationId

def visibleMemberships (resource : ApiResource) (memberships : List Member)
    (tenant : TenantOrganization) : List Member :=
  if tenant = none ∧ resource.visibility = .privateResource then
    memberships.filter fun m => m.organizationId = resource.ownerOrganizationId
  else tenantMemberships memberships tenant

def Subject.organizationId : Subject → Option Id
  | .user _ organizationId => organizationId
  | _ => none

def userEntitlementMatchesOrganization (e : ScopeEntitlement) (tenant : TenantOrganization) :
    Bool :=
  tenant.all fun organizationId => organizationId == e.subject.organizationId

def userEffectiveResourceScopes (userId : Id) (resource : ApiResource) (now : ℕ)
    (tenant : TenantOrganization) : Access (List String) := do
  let memberships ← look (·.listUserMemberships userId)
  let visible := visibleMemberships resource memberships tenant
  if tenant = none ∧ resource.visibility = .privateResource ∧ visible = [] then return []
  let entitlements ← listActiveUserScopeEntitlements userId resource.id now
  let granted := (entitlements.filter (userEntitlementMatchesOrganization · tenant)).map (·.scope)
  let inherited ← collect visible fun membership =>
    resolveOrganizationMembershipScopes membership.organizationId membership.roles resource.id
  return resource.currentRegistryScopes (resource.automaticScopes ++ granted ++ inherited.flatten)

def applicationEffectiveResourceScopes (applicationId ownerOrganizationId : Id)
    (resource : ApiResource) (now : ℕ) : Access (List String) := do
  if resource.activeVisibleToOrganization ownerOrganizationId then
    let entitlements ← listActiveApplicationScopeEntitlements applicationId resource.id now
    return resource.currentRegistryScopes (resource.automaticScopes ++ entitlements.map (·.scope))
  else return []

def organizationUserHasScope (organizationId userId : Id) (requiredScope : String) :
    Access Bool := do
  let member ← look (·.findMemberByOrganizationUser organizationId userId)
  let realmroot ← look fun d => d.resources.find? fun r => r.isRealmroot ∧ r.deletedAt = none
  match member with
  | none => return false
  | some member =>
    let scopes ← resolveOrganizationMembershipScopesForResource organizationId
      member.roles realmroot
    return scopes.contains requiredScope

def activeIdentityOrganizationIds (ownerUserId : Id) : Access (List Id) := do
  let candidates ← look (·.listUserMemberships ownerUserId)
  let organizations ← collect (Text.unique (candidates.map (·.organizationId)))
    fun organizationId => look (·.findOrganization organizationId)
  return (organizations.reduceOption.filter fun o => !o.disabled).map (·.id)

def requireAgentResourceVisibility (resource : ApiResource) (ownerUserId : Id) : Access Unit := do
  let organizationIds ← activeIdentityOrganizationIds ownerUserId
  require (resource.availableToAgents ∧ resource.activeVisibleToAgent organizationIds)
    (forbidden "Resource Server is not visible to this Agent.")

def nativeAuthorityDetails (ownerUserId : Id) : Access (List AuthorizationDetail) := do
  let organizationIds ← activeIdentityOrganizationIds ownerUserId
  return realmrootAuthority "user" ownerUserId ::
    (Text.sort organizationIds).map (realmrootAuthority "organization")

def nativeAuthorityEffectiveScopes (controllerUserId : Id) (resource : ApiResource)
    (detail : AuthorizationDetail) : Access (List String) := do
  let current := fun scopes : List String =>
    Text.sort ((Text.unique scopes).filter resource.agentScopes.contains)
  match detail.stringField "authority", detail.stringField "id" with
  | some "organization", some organizationId =>
    let entitled ←
      if resource.isRealmroot then
        look fun d => (d.listUserMemberships controllerUserId).any
          (·.organizationId = organizationId)
      else pure true
    if !entitled then return []
    let now ← clock
    return current (← userEffectiveResourceScopes controllerUserId resource now
      (some (some organizationId)))
  | some "user", some id =>
    if id ≠ controllerUserId then return []
    let now ← clock
    let scopes ← userEffectiveResourceScopes controllerUserId resource now (some none)
    let own := if resource.isRealmroot then ["agents:read", "agents:write", "audit-events:read"]
      else []
    return current (own ++ scopes)
  | _, _ => return []

end FlareAuth
