import FlareAuth.ExternalAuthorization

/-!
# Granting access to an Agent

The decision about an access request and the direct grant of a permission:
both validate the target, then write entitlements.
-/

namespace FlareAuth

open Concurrent Procedure Access

variable [Locale]

/-- An Agent as authentication presents it: its active identity and an active binding. -/
structure AgentResourcePrincipal where
  identity : AgentIdentity
  binding : AgentBinding
  runtime : Option String
  sessionId : Option String

namespace AgentResourcePrincipal

def identityId (p : AgentResourcePrincipal) : Id := p.identity.id

def issuer (p : AgentResourcePrincipal) : String := p.identity.issuer

def subject (p : AgentResourcePrincipal) : String := p.identity.subject

def protocolAgentId (p : AgentResourcePrincipal) : Id := p.binding.protocolAgentId

def hostId (p : AgentResourcePrincipal) : Id := p.binding.hostId

end AgentResourcePrincipal

structure AuditInput where
  action : String
  result : String
  principal : Option AgentResourcePrincipal
  request : Option AgentAccessRequest
  resourceId : Id
  connection : Option ResourceConnection
  accessRequestId : Option Id
  controllerUserId : Option Id
  scopes : List String
  authorizationDetails : List AuthorizationDetail
  reasonCode : Option String

def AuditInput.agentIdentityId (input : AuditInput) : Option Id :=
  (input.principal.map (·.identityId)).or (input.request.map (·.agentIdentityId))

def resolveAuditTenant (input : AuditInput) : Access Owner :=
  match input.connection with
  | some connection => return connection.owner
  | none => do
    let identityId ← orThrow input.agentIdentityId
      (.error "Agent audit event has no tenant-owned resource.")
    let found ← look (·.findIdentity identityId)
    let identity ← orThrow found (.error
      ("Agent identity " ++ identityId ++ " was not found while writing its audit event."))
    return .user identity.ownerUserId

def auditProjection (detail : AuthorizationDetail) : AuthorizationDetail :=
  .object (("type", (detail.field "type").getD .null) ::
    ((detail.stringField "identifier").map fun id => ("identifier", Json.string id)).toList)

def resourceAuditRecord (input : AuditInput) : Access AuditEvent := do
  let tenant ← resolveAuditTenant input
  let id ← generateId
  let occurredAt ← clock
  return {
    id := id
    action := input.action
    result := input.result
    owner := tenant
    controllerUserId := input.controllerUserId
    actor := input.principal.map fun p => ⟨p.issuer, p.subject⟩
    agentIdentityId := input.agentIdentityId
    hostId := input.principal.map (·.hostId)
    resourceId := input.resourceId
    resourceConnectionId := input.connection.map (·.id)
    accessRequestId := input.accessRequestId
    scopes := input.scopes
    reasonCode := input.reasonCode
    metadata := input.authorizationDetails.map auditProjection
    occurredAt := occurredAt }

def controlsAgentIdentity (identityId actorUserId : Id) : Access Bool := do
  let identity ← look (·.findIdentity identityId)
  return identity.any (·.ownerUserId = actorUserId)

def requireControlledRequestTarget (request : AgentAccessRequest) (actorUserId : Id) :
    Access (Option ResourceConnection) :=
  match request.connectionId with
  | some connectionId => some <$> requireControlledConnection connectionId actorUserId
  | none => do
    let controlled ← controlsAgentIdentity request.agentIdentityId actorUserId
    require controlled (forbidden "Agent controller access is required.")
    return none

def requireEnabledResource (resourceId : Id) : Access ApiResource := do
  let found ← look (·.findResource resourceId)
  orThrow (found.filter (·.enabled)) (notFound "Enabled Resource Server was not found.")

def requireCurrentNativeAuthorityContext (ownerUserId : Id)
    (authorizationDetails : List AuthorizationDetail) : Access Unit := do
  Procedure.ofExcept (assertNativeAuthoritySelection authorizationDetails)
  let available ← nativeAuthorityDetails ownerUserId
  require (authorizationDetails.head?.any fun selected =>
      available.any fun candidate => exactAuthorizationDetails [candidate] [selected])
    (forbidden "Selected Realmroot authority Context is no longer available.")

/-- The connection that an approval uses: the request's, or the owner's to the resource. -/
def permissionConnection (resource : ApiResource) (connectionId : Option Id) (ownerUserId : Id)
    (actorUserId : Id) : Access ResourceConnection :=
  match connectionId with
  | some id => requireControlledConnection id actorUserId
  | none => do
    let found ← look (·.findConnectionByOwnerResource resource.id ownerUserId)
    let connection ← orThrow found
      (badRequest "An account connection is required to approve external API access.")
    requireControlledConnection connection.id actorUserId

structure PermissionTarget where
  agentIdentityId : Id
  scopes : List String
  connectionId : Option Id

def validateAgentPermissionTarget (resource : ApiResource) (input : PermissionTarget)
    (authorizationDetails : List AuthorizationDetail) (actorUserId : Id)
    (resolvedAccountScopes : Option (List String)) : Access (Option ResourceConnection) := do
  Procedure.ofExcept (validateResourceRequestedScopes resource input.scopes)
  let found ← look (·.findIdentity input.agentIdentityId)
  let identity ← orThrow (found.filter (·.status = .active))
    (notFound "Active Agent identity was not found.")
  requireAgentResourceVisibility resource identity.ownerUserId
  if resource.requiresAccountConnection then
    let now ← clock
    let grantorScopes ← userEffectiveResourceScopes actorUserId resource now none
    Procedure.ofExcept (assertScopeSubset input.scopes grantorScopes "controller effective scope")
    let connection ←
      permissionConnection resource input.connectionId identity.ownerUserId actorUserId
    require (connection.resourceId = resource.id ∧ connection.status = .active)
      (badRequest "The selected account connection does not belong to this API resource.")
    Procedure.ofExcept (assertConnectionInHomeSpace connection identity.ownerUserId)
    Procedure.ofExcept
      (assertAuthorizationDetailsSelection resource (some connection) authorizationDetails)
    Procedure.ofExcept (assertAuthorizationDetailsSubset authorizationDetails
      connection.authorizationDetails "connected account")
    let contextual ←
      if resolvedAccountScopes.isSome then pure resolvedAccountScopes
      else if authorizationDetails.isEmpty then pure none
      else accountScopesForAuthorizationDetails resource connection authorizationDetails
    Procedure.ofExcept (assertScopeSubset input.scopes
      (contextual.getD connection.grantedScopes) "connected account")
    return some connection
  else
    requireCurrentNativeAuthorityContext identity.ownerUserId authorizationDetails
    let grantorScopes ← nativeAuthorityEffectiveScopes actorUserId resource
      (authorizationDetails.headD .null)
    Procedure.ofExcept (assertScopeSubset input.scopes grantorScopes "controller effective scope")
    require (input.connectionId = none)
      (badRequest "Native API resources do not use account connections.")
    Procedure.ofExcept (assertAuthorizationDetailsSelection resource none authorizationDetails)
    return none

def requestHostId (request : AgentAccessRequest) : Access Id := do
  let identity ← look (·.findIdentity request.agentIdentityId)
  let binding ← look fun d => identity.bind fun i =>
    (d.bindingsOf i.id).find? fun b => b.id = request.bindingId
  let binding ← orThrow binding (notFound "Agent host binding was not found.")
  return binding.hostId

/-- The answer about a request, which names the host of its binding. -/
def toDecidedRequest (decided request : AgentAccessRequest) : Access AgentAccessRequest := do
  let _ ← requestHostId request
  return decided

structure DecideApproval where
  lifetime : Lifetime
  authorizationDetails : Option (List AuthorizationDetail)

inductive DecideAgentAccessRequest where
  | deny
  | approve (input : DecideApproval)

/-- A permission does not outlast its expiry before it begins. -/
def requireFutureExpiry (lifetime : Lifetime) (now : ℕ) : Access Unit :=
  require (lifetime.expiresAt.all fun t => now < t)
    (badRequest "Permission expiry must be in the future.")

def contextHash (authorizationDetails : List AuthorizationDetail) : Digest String :=
  sha256 (canonicalJson (.array authorizationDetails))

/-- The lifetime that an approval gives an entitlement, if it changes it: a persistent approval
persists, and a later expiry extends. -/
def Lifetime.approvedAs (current requested : Lifetime) : Option Lifetime :=
  match requested, current with
  | _, .persistent => none
  | .persistent, _ => some .persistent
  | .expiring t, .expiring t' => if t' < t then some (.expiring t) else none
  | .expiring t, .once => some (.expiring t)
  | .once, _ => none

inductive ScopeApproval where
  | keep (current : ScopeEntitlement)
  | update (current : ScopeEntitlement) (update : EntitlementUpdate)
  | create (entitlement : ScopeEntitlement)

def ScopeApproval.entitlementId : ScopeApproval → Id
  | .keep e => e.id
  | .update e _ => e.id
  | .create e => e.id

def ScopeApproval.created : ScopeApproval → Option ScopeEntitlement
  | .create e => some e
  | _ => none

def ScopeApproval.updated : ScopeApproval → Option EntitlementUpdate
  | .update _ u => some u
  | _ => none

/-- The columns that the entitlements of one approval share. -/
structure ApprovalContext where
  request : AgentAccessRequest
  connectionId : Option Id
  authorizationDetails : List AuthorizationDetail
  lifetime : Lifetime
  actorUserId : Id
  now : ℕ

def ApprovalContext.hash (c : ApprovalContext) : Digest String := contextHash c.authorizationDetails

def ApprovalContext.equivalent (c : ApprovalContext) (e : ScopeEntitlement) : Bool :=
  e.resourceServerId == c.request.resourceId && e.connectionId == c.connectionId &&
    exactAuthorizationDetails e.authorizationDetails c.authorizationDetails

def ApprovalContext.entitlement (c : ApprovalContext) (id : Id) (scope : String) :
    ScopeEntitlement where
  id := id
  subject := .agent c.request.agentIdentityId
  resourceServerId := c.request.resourceId
  connectionId := c.connectionId
  authorizationDetails := c.authorizationDetails
  authorizationContextHash := c.hash
  scope := scope
  lifetime := c.lifetime
  grantedBy := .user c.actorUserId
  sourceAccessRequestId := some c.request.id
  ended := none
  createdAt := c.now

def ApprovalContext.approveScope (c : ApprovalContext) (existing : List ScopeEntitlement)
    (scope : String) : Access ScopeApproval :=
  match existing.find? fun e => e.scope = scope with
  | some current =>
    let lifetime := current.lifetime.approvedAs c.lifetime
    if lifetime.isSome ∨ current.authorizationContextHash ≠ c.hash then
      return .update current ⟨current.id, lifetime.getD current.lifetime, c.hash⟩
    else return .keep current
  | none => do
    let id ← generateId
    return .create (c.entitlement id scope)

def ApprovalContext.approval (c : ApprovalContext) (approvals : List ScopeApproval)
    (audit : AuditEvent) : Approval where
  entitlements := approvals.filterMap (·.created)
  updates := approvals.filterMap (·.updated)
  requestId := c.request.id
  decision := {
    approvedEntitlements := (c.request.scopes.zip approvals).map fun x => ⟨x.1, x.2.entitlementId⟩
    connectionId := c.connectionId
    authorizationDetails := c.authorizationDetails
    decidedAt := c.now }
  audit := audit

def accessDecidedAudit (request : AgentAccessRequest) (result : String)
    (connection : Option ResourceConnection) (controllerUserId : Id)
    (authorizationDetails : List AuthorizationDetail) (reasonCode : Option String) :
    AuditInput where
  action := "api_resource.access_decided"
  result := result
  principal := none
  request := some request
  resourceId := request.resourceId
  connection := connection
  accessRequestId := some request.id
  controllerUserId := some controllerUserId
  scopes := request.scopes
  authorizationDetails := authorizationDetails
  reasonCode := reasonCode

def findPendingAccessRequest (requestId : Id) : Access AgentAccessRequest := do
  let found ← findAccessRequest requestId
  let now ← clock
  orThrow (found.filter fun r => r.status = .pending ∧ now < r.expiresAt)
    (notFound "Pending Agent access request was not found.")

def denyAgentAccessRequest (request : AgentAccessRequest)
    (connection : Option ResourceConnection) (actorUserId : Id) (now : ℕ) :
    Access AgentAccessRequest := do
  let audit ← resourceAuditRecord (accessDecidedAudit request "denied" connection actorUserId
    request.authorizationDetails (some "controller_denied"))
  let decided ← decideAccessRequestWithAudit request.id (.denied now) audit
  let decided ← orThrow decided (badRequest "Agent access request was already decided.")
  toDecidedRequest decided request

/-- Everything of an approval before its batch: the batch's input. -/
def prepareApproval (request : AgentAccessRequest) (input : DecideApproval) (actorUserId : Id)
    (reasonCode : Option String) (now : ℕ) : Access Approval := do
  let resource ← requireEnabledResource request.resourceId
  let authorizationDetails := input.authorizationDetails.getD []
  require (authorizationDetailsMatchRequest authorizationDetails request.authorizationDetails)
    (invalidAuthorizationDetails
      "Approved authorization details do not match the pending access request.")
  let connection ← validateAgentPermissionTarget resource
    ⟨request.agentIdentityId, request.scopes, request.connectionId⟩ authorizationDetails
    actorUserId none
  requireFutureExpiry input.lifetime now
  let context : ApprovalContext := {
    request := request
    connectionId := connection.map (·.id)
    authorizationDetails := authorizationDetails
    lifetime := input.lifetime
    actorUserId := actorUserId
    now := now }
  let entitlements ← listActiveEntitlementsByAgent request.agentIdentityId now
  let approvals ← collect request.scopes
    (context.approveScope (entitlements.filter context.equivalent))
  let audit ← resourceAuditRecord (accessDecidedAudit request "allowed" connection actorUserId
    authorizationDetails reasonCode)
  return context.approval approvals audit

/-- The request to decide, once the actor controls its target. -/
def prepareDecision (requestId actorUserId : Id) :
    Access (AgentAccessRequest × Option ResourceConnection × ℕ) := do
  let request ← findPendingAccessRequest requestId
  let connection ← requireControlledRequestTarget request actorUserId
  let now ← clock
  return (request, connection, now)

/-- `decideAgentAccessRequest`, with the number of attempts that a conflicting entitlement still
allows. -/
def decideAttempts (requestId : Id) (input : DecideAgentAccessRequest) (actorUserId : Id)
    (reasonCode : Option String) : ℕ → Access AgentAccessRequest
  | 0 => fail (badRequest "Agent permissions changed while access was being approved.")
  | attempts + 1 => do
    let (request, connection, now) ← prepareDecision requestId actorUserId
    match input with
    | .deny => denyAgentAccessRequest request connection actorUserId now
    | .approve input' =>
      let approval ← prepareApproval request input' actorUserId reasonCode now
      match ← approveAccessRequestWithEntitlements approval with
      | .resourceUnavailable =>
        fail (badRequest "The API resource was deleted before access could be approved.")
      | .entitlementsChanged =>
        match ← findAccessRequest requestId with
        | some concurrentlyDecided =>
          if concurrentlyDecided.status = .approved then
            toDecidedRequest concurrentlyDecided concurrentlyDecided
          else decideAttempts requestId input actorUserId reasonCode attempts
        | none => decideAttempts requestId input actorUserId reasonCode attempts
      | .requestChanged => fail (badRequest "Agent access request was already decided.")
      | .approved _ approved => toDecidedRequest approved request

/-- The first attempt and one retry. -/
def decideAgentAccessRequest (requestId : Id) (input : DecideAgentAccessRequest)
    (actorUserId : Id) (reasonCode : Option String) : Access AgentAccessRequest :=
  decideAttempts requestId input actorUserId reasonCode 2

end FlareAuth
