import FlareAuth.AccessRequest
import FlareAuth.Concurrent.Command
import FlareAuth.Relational.Keyed

/-!
# Resource Servers and who may use them

The update of a Resource Server with the two batches that follow from it: one
ends what a resource that turns private leaves outside its owner, the other what
a new scope registry no longer declares. Each command here runs alone.
-/

namespace FlareAuth.ResourceServers

open Concurrent Relational

structure ResourceScopesConfiguration where
  resourceServerId : Id
  scopes : List String
  deriving DecidableEq

structure Application where
  id : Id
  ownerOrganizationId : Id
  resourceScopes : List ResourceScopesConfiguration

structure ApplicationConsent where
  id : Id
  userId : Id
  resourceServerId : Option Id
  scopes : List String
  revokedAt : Option ℕ

structure Store where
  now : ℕ
  generated : ℕ
  users : List User
  organizations : List Organization
  members : List Member
  organizationRoles : List OrganizationRole
  resources : Keyed ApiResource.id
  applications : Keyed Application.id
  identities : Keyed AgentIdentity.id
  entitlements : List ScopeEntitlement
  consents : List ApplicationConsent

/-- The body of an update: what it leaves out stays as it is. -/
structure UpdateApiResource where
  identifier : Option String
  resourceUrl : Option String
  connectorId : Option (Option Id)
  authorizationDetails : Option (List AuthorizationDetail)
  enabled : Option Bool
  ownerOrganizationId : Option Id
  visibility : Option Visibility
  scopeGrantModes : Option (List ResourceScope)
  availableToAgents : Option Bool

/-- What the network and the parsers of URLs and documents answer. -/
structure Discovery where
  validateResourceUrl : (resourceUrl : String) → Except Failure Unit
  protectedResourceMetadata : (resourceUrl : String) → Except Failure Unit
  externalResourceConnector : (resourceUrl : String) → (connectorId : Id) →
    List AuthorizationDetail → Except Failure Unit
  synchronizeResourceDiscovery : (resourceUrl : String) → Option (List ResourceScope) →
    Except Failure (List ResourceScope)

abbrev Governance := Command Store Failure

abbrev StoreBatch := Batch Store Failure

namespace Store

def nextId (s : Store) : Id := "id-" ++ toString s.generated

def isMember (s : Store) (organizationId userId : Id) : Bool :=
  s.members.any fun m => m.organizationId == organizationId && m.userId == userId

/-- `ownerUsers.has(identityOwners.get(…) ?? '')`. -/
def isMemberOwned (s : Store) (organizationId agentIdentityId : Id) : Bool :=
  s.isMember organizationId (((s.identities.find agentIdentityId).map (·.ownerUserId)).getD "")

def isOwnApplication (s : Store) (organizationId applicationId : Id) : Bool :=
  (s.applications.find applicationId).map (·.ownerOrganizationId) == some organizationId

def remainsVisible (s : Store) (organizationId : Id) (e : ScopeEntitlement) : Bool :=
  match e.subject with
  | .user userId _ => s.isMember organizationId userId
  | .application applicationId => s.isOwnApplication organizationId applicationId
  | .agent agentIdentityId => s.isMemberOwned organizationId agentIdentityId

def findResource (s : Store) (id : Id) : Option ApiResource :=
  (s.resources.find id).filter fun r => r.deletedAt.isNone

end Store

namespace Repository

def patched (patch : UpdateApiResource) (r : ApiResource) : ApiResource :=
  { r with
    identifier := patch.identifier.getD r.identifier
    resourceUrl := patch.resourceUrl.getD r.resourceUrl
    connectorId := patch.connectorId.getD r.connectorId
    authorizationDetails := patch.authorizationDetails.getD r.authorizationDetails
    enabled := patch.enabled.getD r.enabled
    ownerOrganizationId := patch.ownerOrganizationId.getD r.ownerOrganizationId
    visibility := patch.visibility.getD r.visibility
    availableToAgents := patch.availableToAgents.getD r.availableToAgents }

theorem patched_id (patch : UpdateApiResource) (r : ApiResource) :
    (patched patch r).id = r.id := rfl

def live (id : Id) (r : ApiResource) : Bool := r.id == id && r.deletedAt.isNone

def patchResource (id : Id) (patch : UpdateApiResource) (s : Store) : Store :=
  { s with resources := s.resources.update (live id) (patched patch) (patched_id patch) }

/-- The update of the row, under the two partial unique indexes. -/
def updateRow (id : Id) (patch : UpdateApiResource) : StoreBatch Bool := fun s =>
  let updated := s.resources.rows.any (live id)
  let taken := s.resources.rows.any fun r => r.id != id && r.deletedAt.isNone &&
    (patch.identifier == some r.identifier || patch.resourceUrl == some r.resourceUrl)
  if updated && taken then
    .error (conflict "An active Resource Server already uses this identifier or resource URL.")
  else .ok (updated, patchResource id patch s)

def withoutResource (id : Id) (scopes : List ResourceScopesConfiguration) :
    List ResourceScopesConfiguration :=
  scopes.filter fun c => c.resourceServerId != id

/-- What a resource that turns private takes from everyone outside its owner. Whom that concerns
is read from the store before the batch. -/
def confine (before : Store) (id ownerOrganizationId : Id) (now : ℕ) (s : Store) : Store :=
  { s with
    applications := s.applications.update (fun a => a.ownerOrganizationId != ownerOrganizationId)
      (fun a => { a with resourceScopes := withoutResource id a.resourceScopes }) fun _ => rfl
    entitlements := updateWhere
      (fun e => e.resourceServerId == id && !before.remainsVisible ownerOrganizationId e &&
        e.ended.isNone)
      (fun e => { e with ended := some (now, .revoked) }) s.entitlements
    organizationRoles := updateWhere (fun r => r.organizationId != ownerOrganizationId)
      (fun r => { r with permission := r.permission.filter fun x => x.resourceId != id })
      s.organizationRoles
    consents := updateWhere
      (fun c => c.resourceServerId == some id && !before.isMember ownerOrganizationId c.userId &&
        c.revokedAt.isNone)
      (fun c => { c with revokedAt := some now }) s.consents }

def updateResource (id : Id) (patch : UpdateApiResource) : Governance Bool := do
  if patch.visibility ≠ some .privateResource then Command.atomic (updateRow id patch)
  else
    let before ← Command.read fun s => s
    match before.resources.find id with
    | none => return false
    | some resource =>
      Command.atomic do
        let updated ← updateRow id patch
        Batch.modify (confine before id
          (patch.ownerOrganizationId.getD resource.ownerOrganizationId) before.now)
        return updated

def oidcScopes : List String := ["openid", "profile", "email", "offline_access"]

/-- The scopes of a consent that are still declared, or its end if there are none. -/
def consentKept (declared : List String) (now : ℕ) (c : ApplicationConsent) : ApplicationConsent :=
  let scopes := c.scopes.filter fun scope => oidcScopes.contains scope || declared.contains scope
  if scopes.isEmpty then { c with revokedAt := some now } else { c with scopes := scopes }

def declaredConfigurations (id : Id) (declared : List String)
    (scopes : List ResourceScopesConfiguration) : List ResourceScopesConfiguration :=
  (scopes.map fun c =>
    if c.resourceServerId == id then { c with scopes := c.scopes.filter declared.contains } else c
  ).filter fun c => c.resourceServerId != id || !c.scopes.isEmpty

/-- What a new scope registry ends everywhere. -/
def prune (id : Id) (registry : List ResourceScope) (now : ℕ) (s : Store) : Store :=
  let declared := registry.map (·.value)
  let assigned := (registry.filter fun x => x.grantMode = .assigned).map (·.value)
  { s with
    applications := s.applications.update (fun _ => true)
      (fun a => { a with resourceScopes := declaredConfigurations id declared a.resourceScopes })
      fun _ => rfl
    entitlements := updateWhere
      (fun e => e.resourceServerId == id && !assigned.contains e.scope && e.ended.isNone)
      (fun e => { e with ended := some (now, .revoked) }) s.entitlements
    organizationRoles := s.organizationRoles.map fun r => { r with
      permission := r.permission.filter fun x => x.resourceId != id || assigned.contains x.scope }
    consents := updateWhere (fun c => c.resourceServerId == some id) (consentKept declared now)
      s.consents }

def setScopeRegistry (id : Id) (registry : List ResourceScope) (s : Store) : Store :=
  { s with
    resources := s.resources.update (live id) (fun r => { r with scopeRegistry := some registry })
      fun _ => rfl }

def replaceResourceDiscovery (id : Id) (registry : List ResourceScope) : Governance Bool := do
  let now ← Command.read (·.now)
  Command.atomic do
    Batch.modify (setScopeRegistry id registry)
    Batch.modify (prune id registry now)
    return true

end Repository

def getResource (id : Id) : Governance ApiResource := do
  let resource ← Command.read (·.findResource id)
  Command.orThrow resource (notFound "API resource was not found.")

def requireActiveOrganization (id : Id) : Governance Unit := do
  let organization ← Command.read fun s => s.organizations.find? fun o => o.id = id
  let organization ← Command.orThrow organization (notFound "Organization was not found.")
  Command.require (!organization.disabled) (badRequest "Organization must be active.")

def requirePlatformOrganization : Governance Organization := do
  let organization ← Command.read fun s => s.organizations.find? fun o => o.slug = "realmroot"
  Command.orThrow organization (.error "The built-in platform Organization is unavailable.")

def updateScopeGrantModes (registry : Option (List ResourceScope)) (updates : List ResourceScope) :
    Except Failure (List ResourceScope) :=
  match registry with
  | none => .error
    (badRequest "Resource Server scopes must be synchronized before grant modes can be changed.")
  | some scopes =>
    match updates.find? fun u => !(scopes.map (·.value)).contains u.value with
    | some unknown => .error
      (badRequest ("Scope \"" ++ unknown.value ++ "\" is not declared by the Resource Server."))
    | none => .ok (scopes.map fun scope => { scope with
        grantMode := ((updates.reverse.find? fun u => u.value = scope.value).map
          (·.grantMode)).getD scope.grantMode })

def validateResourceProviderBoundary (d : Discovery) (resourceUrl : String)
    (model : AuthorizationModel) (connectorId : Option Id) (details : List AuthorizationDetail) :
    Except Failure Unit :=
  match model, connectorId with
  | .external, none =>
    .error (badRequest "External authorization requires a Provider Connector.")
  | .external, some connectorId => d.externalResourceConnector resourceUrl connectorId details
  | .native, some _ =>
    .error (badRequest "Native authorization does not use a Provider Connector.")
  | .native, none => .ok ()

/-- An update that touches the boundary reads the metadata of the resource again. -/
def checkBoundary (d : Discovery) (resource : ApiResource) (input : UpdateApiResource) :
    Except Failure Unit := do
  let resourceUrl := input.resourceUrl.getD resource.resourceUrl
  let boundaryChanged := input.resourceUrl.isSome || input.authorizationDetails.isSome ||
    input.connectorId.isSome
  if boundaryChanged || input.enabled == some true then
    d.protectedResourceMetadata resourceUrl
    validateResourceProviderBoundary d resourceUrl resource.authorizationModel
      (input.connectorId.getD resource.connectorId)
      (input.authorizationDetails.getD resource.authorizationDetails)

def synchronize (d : Discovery) (resource : ApiResource) (input : UpdateApiResource) :
    Except Failure (Option (List ResourceScope)) :=
  let resourceUrl := input.resourceUrl.getD resource.resourceUrl
  let shouldSynchronize := input.enabled.getD resource.enabled &&
    (input.enabled == some true || input.resourceUrl.isSome || input.connectorId.isSome)
  if shouldSynchronize then
    (d.synchronizeResourceDiscovery resourceUrl
      (if resourceUrl = resource.resourceUrl then resource.scopeRegistry else none)).map some
  else .ok none

def nextRegistry (resource : ApiResource) (input : UpdateApiResource)
    (synchronized : Option (List ResourceScope)) : Except Failure (Option (List ResourceScope)) :=
  match input.scopeGrantModes with
  | some updates =>
    (updateScopeGrantModes (synchronized.or resource.scopeRegistry) updates).map some
  | none => .ok synchronized

/-- The part of an update between its checks and its writes: the patch, and the scope registry if
it is to be replaced. -/
def resourceChanges (d : Discovery) (resource : ApiResource) (input : UpdateApiResource) :
    Except Failure (UpdateApiResource × Option (List ResourceScope)) := do
  checkBoundary d resource input
  let synchronized ← synchronize d resource input
  let registry ← nextRegistry resource input synchronized
  let connectorId := input.connectorId.getD resource.connectorId
  return (if synchronized.isSome then { input with connectorId := some connectorId } else input,
    registry)

def requireNewOwner (ownerOrganizationId : Option Id) : Governance Unit :=
  match ownerOrganizationId.filter (· ≠ "") with
  | some organizationId => requireActiveOrganization organizationId
  | none => pure ()

def requireExternalOwner (resource : ApiResource) (ownerOrganizationId : Id) : Governance Unit :=
  match resource.authorizationModel with
  | .external => do
    let platform ← requirePlatformOrganization
    Command.require (ownerOrganizationId = platform.id)
      (badRequest
        "External Resource Servers must be owned by the built-in platform Organization.")
  | .native => pure ()

def publishRegistry (id : Id) : Option (List ResourceScope) → Governance Unit
  | some registry => do
    let replaced ← Repository.replaceResourceDiscovery id registry
    Command.require (replaced = true) (notFound "API resource was not found.")
  | none => pure ()

def updateResource (d : Discovery) (id : Id) (input : UpdateApiResource) :
    Governance ApiResource := do
  let resource ← getResource id
  Command.require (!resource.isRealmroot)
    (badRequest "The Realmroot Resource Server is system-managed.")
  Command.ofExcept (input.resourceUrl.elim (.ok ()) d.validateResourceUrl)
  requireNewOwner input.ownerOrganizationId
  requireExternalOwner resource (input.ownerOrganizationId.getD resource.ownerOrganizationId)
  let changes ← Command.ofExcept (resourceChanges d resource input)
  let updated ← Repository.updateResource id changes.1
  Command.require (updated = true) (notFound "API resource was not found.")
  publishRegistry id changes.2
  getResource id

section Permissions

structure CreateUserPermission where
  organizationId : Option Id
  resourceServerId : Id
  scope : String
  mode : Mode
  expiresAt : Option ℕ

def validateAssignedScope (resource : ApiResource) (scope : String) : Except Failure Unit :=
  if (resource.scopesOfMode .assigned).contains scope then .ok ()
  else .error (badRequest
    "Direct grants may reference only assigned scopes in the current Resource Server registry.")

variable [Locale]

namespace Repository

def insertScopeEntitlement (input : ScopeEntitlement) : StoreBatch (Option ScopeEntitlement) :=
  fun s =>
    if KeysUnique (s.entitlements ++ [input]) then
      .ok (some input, { s with entitlements := s.entitlements ++ [input] })
    else .ok (none, s)

def replaceExpiredEntitlement (existingId : Id) (input : ScopeEntitlement) (now : ℕ) :
    StoreBatch ScopeEntitlement := fun s =>
  let entitlements := updateWhere (fun e => e.id == existingId)
    (fun e => { e with ended := some (now, .expired) }) s.entitlements ++ [input]
  if KeysUnique entitlements then
    .ok (input, { s with entitlements := entitlements })
  else .error (.error "constraint failed")

def strengthenEntitlement (existing : ScopeEntitlement) (lifetime : Option Lifetime)
    (hash : Digest String) : StoreBatch ScopeEntitlement := do
  let strengthened := fun e : ScopeEntitlement =>
    { e with lifetime := lifetime.getD e.lifetime, authorizationContextHash := hash }
  Batch.modify fun s => { s with
    entitlements := updateWhere (fun e => e.id == existing.id) strengthened s.entitlements }
  return strengthened existing

def mergeScopeEntitlement (existing input : ScopeEntitlement) (now : ℕ) :
    Governance ScopeEntitlement :=
  let lifetime := strongerLifetime existing.lifetime input.lifetime
  if !existing.unexpired now then
    Command.atomic (replaceExpiredEntitlement existing.id input now)
  else if lifetime = none ∧
      existing.authorizationContextHash = input.authorizationContextHash then
    pure existing
  else Command.atomic (strengthenEntitlement existing lifetime input.authorizationContextHash)

def createScopeEntitlement (input : ScopeEntitlement) (now : ℕ) : Governance ScopeEntitlement := do
  let equivalent := Command.read fun s : Store =>
    s.entitlements.find? (activeEquivalentEntitlement input)
  match ← equivalent with
  | some existing => mergeScopeEntitlement existing input now
  | none =>
    match ← Command.atomic (insertScopeEntitlement input) with
    | some inserted => return inserted
    | none =>
      let existing ← Command.orThrow (← equivalent)
        (.error "Equivalent active permission was not found after a concurrent grant.")
      mergeScopeEntitlement existing input now

end Repository

def createUserPermission (userId : Id) (input : CreateUserPermission) (grantor : Grantor) :
    Governance ScopeEntitlement := do
  let user ← Command.read fun s => s.users.find? fun u => u.id = userId
  let _ ← Command.orThrow user (notFound "User not found.")
  let resource ← getResource input.resourceServerId
  Command.require (resource.enabled = true) (badRequest "Resource Server must be active.")
  Command.ofExcept (validateAssignedScope resource input.scope)
  if resource.visibility = .privateResource then
    let member ← Command.read (·.isMember resource.ownerOrganizationId userId)
    Command.require (member = true)
      (badRequest "Private Resource Server grants require an owner Organization member.")
  if let some organizationId := input.organizationId then
    let member ← Command.read (·.isMember organizationId userId)
    Command.require (member = true)
      (badRequest "User Permission Organization must contain the target user.")
    Command.require (resource.activeVisibleToOrganization organizationId = true)
      (badRequest "Resource Server is not visible to the grant Organization.")
  let now ← Command.read (·.now)
  let expiresAt := if input.mode = .expiring then input.expiresAt else none
  Command.require (input.mode = .expiring → expiresAt.isSome)
    (badRequest "Until Permissions require an expiry.")
  Command.require (input.mode = .persistent → input.expiresAt = none)
    (badRequest "Persistent Permissions cannot expire.")
  Command.require (∀ t ∈ expiresAt, now < t) (badRequest "Permission expiry must be in the future.")
  let id ← Command.read (·.nextId)
  Command.modify fun s => { s with generated := s.generated + 1 }
  Repository.createScopeEntitlement {
    id := id
    subject := .user userId input.organizationId
    resourceServerId := resource.id
    connectionId := none
    authorizationDetails := []
    authorizationContextHash := sha256 (Json.stringifyAll [])
    scope := input.scope
    lifetime := expiresAt.elim .persistent .expiring
    grantedBy := grantor
    sourceAccessRequestId := none
    ended := none
    createdAt := now } now

end Permissions

end FlareAuth.ResourceServers
