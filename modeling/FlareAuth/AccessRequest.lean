import FlareAuth.AccessGrant

/-!
# Requesting access and granting it directly

An Agent asks for scopes in a Context. Scopes it already holds there are
approved at once, automatic scopes of a native resource are approved by policy,
and everything else waits for the controller. A controller can also grant a
permission without any request.
-/

namespace FlareAuth

open Concurrent Procedure Access

variable [Locale]

/-- The lifetime that replaces the current one when a grant repeats an active entitlement. -/
def strongerLifetime (current requested : Lifetime) : Option Lifetime :=
  match current, requested with
  | .persistent, _ => none
  | _, .once => none
  | _, .persistent => some .persistent
  | .once, .expiring t => some (.expiring t)
  | .expiring t, .expiring t' => if t < t' then some (.expiring t') else none

/-- `activeEquivalentEntitlement`. -/
def activeEquivalentEntitlement (input e : ScopeEntitlement) : Bool :=
  e.subject == input.subject && e.resourceServerId == input.resourceServerId &&
    e.connectionId == input.connectionId &&
    (e.authorizationContextHash == input.authorizationContextHash ||
      Json.stringifyAll e.authorizationDetails == Json.stringifyAll input.authorizationDetails) &&
    e.scope == input.scope && e.ended.isNone

def findEquivalentEntitlement (input : ScopeEntitlement) : Access (Option ScopeEntitlement) :=
  ask (.equivalentEntitlement input) fun s =>
    s.entitlements.find? (activeEquivalentEntitlement input)

/-- What a grant makes of an active equivalent of it. -/
def mergeScopeEntitlement (existing input : ScopeEntitlement) (now : ℕ) :
    Access ScopeEntitlement :=
  if !existing.unexpired now then do
    commit (.replaceExpiredEntitlement existing.id input now)
      (Repository.replaceExpiredEntitlement existing.id input now)
    return input
  else
    let lifetime := strongerLifetime existing.lifetime input.lifetime
    if lifetime = none ∧ existing.authorizationContextHash = input.authorizationContextHash then
      return existing
    else do
      let updated ← commit
        (.strengthenEntitlement existing.id lifetime input.authorizationContextHash)
        (Repository.strengthenEntitlement existing.id lifetime input.authorizationContextHash)
      orThrow updated (.error "undefined")

def createScopeEntitlement (input : ScopeEntitlement) (now : ℕ) : Access ScopeEntitlement := do
  match ← findEquivalentEntitlement input with
  | some existing => mergeScopeEntitlement existing input now
  | none =>
    match ← commit (.insertScopeEntitlement input) (Repository.insertScopeEntitlement input) with
    | some inserted => return inserted
    | none =>
      let existing ← findEquivalentEntitlement input
      let existing ← orThrow existing
        (.error "Equivalent active permission was not found after a concurrent grant.")
      mergeScopeEntitlement existing input now

structure CreateAgentPermission where
  resource : String
  scopes : List String
  lifetime : Lifetime

/-- A Context of a direct grant, with the scopes that the account grants in it if known. -/
structure PermissionSelection where
  authorizationDetails : List AuthorizationDetail
  grantedScopes : Option (List String)

/-- The Contexts of a direct grant: all those of the account, or the controller's authority. -/
def permissionSelections (resource : ApiResource) (actorUserId : Id) (organizationId : Option Id) :
    Access (Option Id × List PermissionSelection) :=
  if resource.requiresAccountConnection then do
    let found ← look (·.findConnectionByOwnerResource resource.id actorUserId)
    let connection ← orThrow (found.filter (·.status = .active))
      (badRequest "The controller must connect the external resource account before granting Agent permissions.")
    if resource.authorizationDetails.isEmpty then return (some connection.id, [⟨[], none⟩])
    else
      let items ← catalogItems resource connection fun _ => false
      require (items ≠ [])
        (badRequest "The connected account has no available authorization Contexts.")
      return (some connection.id,
        items.map fun item => ⟨[item.authorizationDetail], item.grantedScopes⟩)
  else
    let authority := match organizationId with
      | some id => realmrootAuthority "organization" id
      | none => realmrootAuthority "user" actorUserId
    return (none, [⟨[authority], none⟩])

/-- The entitlement of a direct grant, which has no source request. -/
def directEntitlement (id agentId resourceId : Id) (connectionId : Option Id)
    (authorizationDetails : List AuthorizationDetail) (scope : String) (lifetime : Lifetime)
    (actorUserId : Id) (now : ℕ) : ScopeEntitlement where
  id := id
  subject := .agent agentId
  resourceServerId := resourceId
  connectionId := connectionId
  authorizationDetails := authorizationDetails
  authorizationContextHash := contextHash authorizationDetails
  scope := scope
  lifetime := lifetime
  grantedBy := .user actorUserId
  sourceAccessRequestId := none
  ended := none
  createdAt := now

def createAgentPermission (agentId : Id) (input : CreateAgentPermission) (actorUserId : Id)
    (organizationId : Option Id) : Access (List ScopeEntitlement) := do
  let controlled ← controlsAgentIdentity agentId actorUserId
  require controlled (forbidden "Agent controller access is required.")
  let found ← look (·.findResourceByResourceUrl input.resource)
  let resource ← orThrow (found.filter (·.enabled))
    (notFound "Enabled Resource Server was not found.")
  let scopes := Text.unique input.scopes
  let now ← clock
  requireFutureExpiry input.lifetime now
  let (connectionId, selections) ← permissionSelections resource actorUserId organizationId
  forEach selections fun selection => do
    let _ ← validateAgentPermissionTarget resource ⟨agentId, scopes, connectionId⟩
      selection.authorizationDetails actorUserId selection.grantedScopes
  let permissions ← collect selections fun selection =>
    collect scopes fun scope => do
      let id ← generateId
      createScopeEntitlement (directEntitlement id agentId resource.id connectionId
        selection.authorizationDetails scope input.lifetime actorUserId now) now
  return permissions.flatten

structure CreateAgentAccessRequest where
  resourceId : Id
  scopes : List String
  authorizationDetails : Option (List AuthorizationDetail)
  reason : Option String

def assertAccessRequestAuthorizationDetails (resource : ApiResource)
    (authorizationDetails : List AuthorizationDetail) : Except Failure Unit :=
  let supportedTypes := resource.authorizationDetails.map (·.field "type")
  if !resource.requiresAccountConnection then assertNativeAuthoritySelection authorizationDetails
  else if supportedTypes.isEmpty then
    if authorizationDetails.isEmpty then .ok ()
    else .error (invalidAuthorizationDetails
      "This external API resource does not use authorization details.")
  else if authorizationDetails.isEmpty then
    .error (invalidAuthorizationDetails
      "Select at least one concrete authorization detail entry.")
  else if authorizationDetails.any fun detail => !supportedTypes.contains (detail.field "type") then
    .error (invalidAuthorizationDetails
      "Requested authorization details contain an unsupported type.")
  else do
    assertConcreteAuthorizationDetails resource.authorizationDetails authorizationDetails
      "Requested"
    if hasDuplicateAuthorizationDetails authorizationDetails then
      .error (invalidAuthorizationDetails
        "Requested authorization details contain duplicate entries.")
    else .ok ()

/-- The details of a request that are not themselves templates of the resource. -/
def concreteDetails (resource : ApiResource) (details : List AuthorizationDetail) :
    List AuthorizationDetail :=
  details.filter fun detail => !isTemplate resource.authorizationDetails detail

def accessRequestAuthorizationDetails (resource : ApiResource)
    (authorizationDetails : List AuthorizationDetail) : Except Failure (List AuthorizationDetail) :=
  if !resource.requiresAccountConnection || resource.authorizationDetails.isEmpty then do
    assertAccessRequestAuthorizationDetails resource authorizationDetails
    return authorizationDetails
  else if authorizationDetails.isEmpty then .ok resource.authorizationDetails
  else if authorizationDetails.any (fun detail =>
      !matchesSomeTemplate resource.authorizationDetails detail) ||
      hasDuplicateAuthorizationDetails authorizationDetails then
    .error (invalidAuthorizationDetails
      "Requested authorization details contain an unsupported or duplicate entry.")
  else if (concreteDetails resource authorizationDetails).isEmpty then .ok authorizationDetails
  else do
    assertAccessRequestAuthorizationDetails resource (concreteDetails resource authorizationDetails)
    return authorizationDetails

def allAvailable (available details : List AuthorizationDetail) : Bool :=
  details.all fun detail =>
    available.any fun candidate => exactAuthorizationDetails [candidate] [detail]

/-- Without a catalog of its own, a connection that has no details selects none. -/
def serviceResourceFallback (resource : ApiResource) (connection : ResourceConnection) :
    Access Bool :=
  if connection.authorizationDetails.isEmpty then do
    let authorization ← connectorOAuthAuthorization resource connection.providerCredentialGeneration
    return authorization.all fun a => (present a.authorizationDetailsCatalogEndpoint).isNone
  else return false

def resolveRequestedAuthorizationDetails (resource : ApiResource)
    (connection : Option ResourceConnection) (authorizationDetails : List AuthorizationDetail)
    (ownerUserId : Id) : Access Unit := do
  require (!hasDuplicateAuthorizationDetails authorizationDetails)
    (invalidAuthorizationDetails "Authorization details contain duplicate entries.")
  if !resource.requiresAccountConnection then
    let available ← nativeAuthorityDetails ownerUserId
    require (allAvailable available authorizationDetails) (invalidAuthorizationDetails
      "Realmroot authority Context is not available to this Agent owner.")
  else
    let connection ← orThrow connection (invalidAuthorizationDetails
      "Connect the Resource Server before selecting authorization details.")
    let fallback ← serviceResourceFallback resource connection
    require (!fallback) (invalidAuthorizationDetails
      "This Resource Server does not use authorization details.")
    let items ← catalogItems resource connection fun _ => false
    require (allAvailable (items.map (·.authorizationDetail)) authorizationDetails)
      (invalidAuthorizationDetails
        "Authorization detail is not available through this Resource Server connection.")

/-- The scopes that the connected account can already serve; none for a native resource. -/
def reusableAccountScopes (resource : ApiResource) (connection : Option ResourceConnection)
    (authorizationDetails : List AuthorizationDetail) : Access (Option (List String)) :=
  if !resource.requiresAccountConnection then return none
  else
    match connection.filter (·.status = .active) with
    | none => return some []
    | some connection =>
      if (concreteDetails resource authorizationDetails).isEmpty then
        return some connection.grantedScopes
      else do
        let contextual ←
          accountScopesForAuthorizationDetails resource connection authorizationDetails
        return some (contextual.getD connection.grantedScopes)

/-- Scopes beyond the account must be advertised by the connector and, after a refresh of the
registry if need be, declared by the resource. -/
def validateAccountExpansion (resource : ApiResource) (scopes : List String) :
    Access ApiResource := do
  forEach resource.connectorId.toList fun connectorId => do
    call (·.connectorMetadata connectorId)
    let connector ← look (·.findConnector connectorId)
    let advertised := (connector.map (·.scopesSupported)).getD []
    require (advertised = [] ∨ scopes.all advertised.contains)
      (badRequest "Requested scope is not currently supported by the Resource Server.")
  if scopes.all resource.declaredScopes.contains then return resource
  else
    call (·.scopeDiscovery resource.id)
    let refreshed ← look (·.findResource resource.id)
    let refreshed ← orThrow refreshed (notFound "API resource was not found.")
    Procedure.ofExcept (validateResourceRequestedScopes refreshed scopes)
    return refreshed

def automaticNativeController (resource : ApiResource) (scopes : List String) : Bool :=
  !resource.requiresAccountConnection && !scopes.isEmpty &&
    scopes.all resource.automaticScopes.contains

/-- A request before anything is stored: its target, validated, and the scopes it has already. -/
structure RequestDraft where
  resource : ApiResource
  connection : Option ResourceConnection
  scopes : List String
  authorizationDetails : List AuthorizationDetail
  approvedEntitlements : List ApprovedEntitlement
  now : ℕ

def RequestDraft.alreadyAuthorized (d : RequestDraft) : Bool :=
  d.approvedEntitlements.length == d.scopes.length

def RequestDraft.connectionId (d : RequestDraft) : Option Id := d.connection.map (·.id)

def contextMissing (authority : AuthorizationDetail) (missing : List String) : Failure :=
  let id := (authority.field "id").elim "undefined" Json.text
  let kind := (authority.field "authority").elim "undefined" Json.text
  .api 400 "bad_request"
    ("Controller cannot grant the following scopes in Context \"" ++ id ++ "\" (" ++ kind ++
      "): " ++
      String.intercalate ", " missing ++ ". No approval request was created.")
    (some (.object [("context", .object [("id", .string id), ("type", .string kind)]),
      ("scopes", .array (missing.map .string))]))

/-- The validation of a request, up to the point where it is looked up or stored. -/
def draftAccessRequest (input : CreateAgentAccessRequest) (principal : AgentResourcePrincipal) :
    Access RequestDraft := do
  let owner := principal.identity.ownerUserId
  let resource ← requireEnabledResource input.resourceId
  requireAgentResourceVisibility resource owner
  let connection ←
    if resource.requiresAccountConnection then
      look (·.findConnectionByOwnerResource resource.id owner)
    else pure none
  if !resource.requiresAccountConnection then
    Procedure.ofExcept (validateResourceRequestedScopes resource input.scopes)
  let authorizationDetails ← Procedure.ofExcept
    (accessRequestAuthorizationDetails resource (input.authorizationDetails.getD []))
  let concrete := concreteDetails resource authorizationDetails
  if !concrete.isEmpty then
    resolveRequestedAuthorizationDetails resource (connection.filter (·.status = .active)) concrete
      owner
  let scopes := Text.sort (Text.unique input.scopes)
  let now ← clock
  let reusable ← reusableAccountScopes resource connection authorizationDetails
  let resource ←
    if reusable.all fun reusable => scopes.all reusable.contains then do
      Procedure.ofExcept (validateResourceRequestedScopes resource scopes)
      pure resource
    else validateAccountExpansion resource scopes
  let entitlements ← listActiveEntitlementsByAgent principal.identityId now
  let reusableEntitlements := entitlements.filter fun e =>
    e.connectionId == connection.map (·.id) && e.resourceServerId == resource.id &&
      reusable.all (·.contains e.scope) &&
      exactAuthorizationDetails e.authorizationDetails authorizationDetails
  let draft : RequestDraft := {
    resource := resource
    connection := connection
    scopes := scopes
    authorizationDetails := authorizationDetails
    approvedEntitlements := scopes.filterMap fun scope =>
      (reusableEntitlements.find? fun e => e.scope = scope).map fun e => ⟨scope, e.id⟩
    now := now }
  if !draft.alreadyAuthorized && !resource.requiresAccountConnection then
    let authority := authorizationDetails.headD .null
    let grantorScopes ← nativeAuthorityEffectiveScopes owner resource authority
    let missing := scopes.filter fun scope => !grantorScopes.contains scope
    require (missing = []) (contextMissing authority missing)
  return draft

def RequestDraft.matchesPending (d : RequestDraft) (r : AgentAccessRequest) : Bool :=
  r.resourceId == d.resource.id && r.connectionId == d.connectionId &&
    exactScopes r.scopes d.scopes &&
    exactAuthorizationDetails r.authorizationDetails d.authorizationDetails

/-- The pending request that a draft repeats, unless the draft needs none. -/
def findMatchingRequest (d : RequestDraft) (identityId : Id) :
    Access (Option AgentAccessRequest) :=
  if d.alreadyAuthorized then return none
  else do
    let requests ← listPendingAccessRequestsByAgent identityId d.now
    return requests.find? d.matchesPending

def RequestDraft.request (d : RequestDraft) (id approvalToken : Id) (reason : Option String)
    (principal : AgentResourcePrincipal) : AgentAccessRequest where
  id := id
  resourceId := d.resource.id
  connectionId := d.connectionId
  agentIdentityId := principal.identityId
  bindingId := principal.binding.id
  scopes := d.scopes
  authorizationDetails := d.authorizationDetails
  reason := reason
  status := if d.alreadyAuthorized then .approved else .pending
  approvalToken := approvalToken
  approvedEntitlements := if d.alreadyAuthorized then d.approvedEntitlements else []
  expiresAt := d.now + 10 * 60 * 1000
  decidedAt := if d.alreadyAuthorized then some d.now else none
  createdAt := d.now

/-- The approval of automatic scopes by policy, in the controller's name. -/
def approveAutomatically (d : RequestDraft) (requestId : Id) (ownerUserId : Id) :
    Access AgentAccessRequest :=
  decideAgentAccessRequest requestId (.approve ⟨.persistent, some d.authorizationDetails⟩)
    ownerUserId (some "automatic_scope_policy")

def storeAccessRequest (d : RequestDraft) (reason : Option String)
    (principal : AgentResourcePrincipal) : Access AgentAccessRequest := do
  let approvalToken ← generateId
  let requestId ← generateId
  let request := d.request requestId approvalToken reason principal
  let audit ← resourceAuditRecord {
    action := "api_resource.access_requested"
    result := if d.alreadyAuthorized then "allowed" else "pending"
    principal := some principal
    request := none
    resourceId := d.resource.id
    connection := d.connection
    accessRequestId := some request.id
    controllerUserId := none
    scopes := d.scopes
    authorizationDetails := d.authorizationDetails
    reasonCode := none }
  let created ← createAccessRequestWithAudit request audit
  orThrow created (forbidden "Enabled Resource Server is required.")

def createAgentAccessRequest (input : CreateAgentAccessRequest)
    (principal : AgentResourcePrincipal) : Access AgentAccessRequest := do
  let draft ← draftAccessRequest input principal
  let owner := principal.identity.ownerUserId
  let automatic := automaticNativeController draft.resource draft.scopes
  match ← findMatchingRequest draft principal.identityId with
  | some pending =>
    if automatic then approveAutomatically draft pending.id owner else return pending
  | none =>
    let created ← storeAccessRequest draft input.reason principal
    if !draft.alreadyAuthorized && automatic then approveAutomatically draft created.id owner
    else return created

end FlareAuth
