import FlareAuth.TokenIssuance

/-!
# Revoking access

Revocation walks from entitlements to the leases that reference them, revokes
each token at its target, and closes the entitlement in a last batch. Bulk
operations walk from a connection, an Agent or a binding.
-/

namespace FlareAuth

open Concurrent Procedure Access

variable [Locale]

/-- The revocation of a lease's token at the target that issued it, if that is not native. -/
def revokeTokenAtTarget (lease : TokenLease) : Access Unit := do
  let request ← findAccessRequest lease.requestId
  let request ← orThrow request (notFound "Approved Agent access request was not found.")
  let resource ← look (·.findResource request.resourceId)
  let resource ← orThrow resource (notFound "API resource was not found.")
  let connection ← look fun d => request.connectionId.bind d.findConnection
  let authorization ← externalOAuthAuthorization resource
    ((connection.map (·.providerCredentialGeneration)).getD 1)
  forEach authorization.toList fun authorization => do
    require connection.isSome (notFound "Resource account connection was not found.")
    call (·.revocation authorization.revocationEndpoint)

def revokeTokenLeaseAtTarget (lease : TokenLease) (now : ℕ) (persist : Bool) : Access Unit := do
  revokeTokenAtTarget lease
  if persist then revokeTokenLease lease.id now else return ()

def revokeEntitlementTokenLeases (entitlement : ScopeEntitlement) (now : ℕ) : Access Unit := do
  let leases ← listActiveTokenLeasesByEntitlement entitlement.id now
  forEach leases fun lease => revokeTokenLeaseAtTarget lease now true

def revokeEntitlementTokenLeasesAtTarget (entitlement : ScopeEntitlement) (now : ℕ) :
    Access (List Id) := do
  let leases ← listActiveTokenLeasesByEntitlement entitlement.id now
  forEach leases fun lease => revokeTokenLeaseAtTarget lease now false
  return leases.map (·.id)

def accessRevokedAudit (entitlement : ScopeEntitlement) (request : Option AgentAccessRequest)
    (connection : Option ResourceConnection) (accessRequestId : Option Id) (controllerUserId : Id)
    (reasonCode : Option String) : AuditInput where
  action := "api_resource.access_revoked"
  result := "allowed"
  principal := none
  request := request
  resourceId := entitlement.resourceServerId
  connection := connection
  accessRequestId := accessRequestId
  controllerUserId := some controllerUserId
  scopes := [entitlement.scope]
  authorizationDetails := entitlement.authorizationDetails
  reasonCode := reasonCode

/-- The entitlement to revoke, with the request it came from and the connection of that. -/
def prepareRevocation (entitlementId actorUserId : Id) :
    Access (ScopeEntitlement × AgentAccessRequest × Option ResourceConnection) := do
  let found ← findEntitlement entitlementId
  let entitlement ← orThrow (found.filter fun e => e.agentIdentityId.isSome ∧ e.ended.isNone)
    (notFound "Agent Permission was not found.")
  let request ←
    match entitlement.sourceAccessRequestId with
    | some requestId => findAccessRequest requestId
    | none => pure none
  let request ← orThrow request (notFound "Source Agent access request was not found.")
  let connection ← requireControlledRequestTarget request actorUserId
  return (entitlement, request, connection)

def revokeAgentPermission (entitlementId actorUserId : Id) : Access Unit := do
  let (entitlement, request, connection) ← prepareRevocation entitlementId actorUserId
  let now ← clock
  let leaseIds ← revokeEntitlementTokenLeasesAtTarget entitlement now
  let audit ← resourceAuditRecord
    (accessRevokedAudit entitlement (some request) connection (some request.id) actorUserId none)
  let _ ← endEntitlementWithAudit entitlement.id .revoked leaseIds now audit

def revokeAgentResourceAccess (agentIdentityId : Id) : Access Unit := do
  let now ← clock
  let entitlements ← listActiveEntitlementsByAgent agentIdentityId now
  forEach entitlements fun entitlement => do
    revokeEntitlementTokenLeases entitlement now
    let _ ← endEntitlement entitlement.id .revoked now

def revokeAgentResourceLeasesForBinding (bindingId : Id) : Access Unit := do
  let now ← clock
  let leases ← listActiveTokenLeasesByBinding bindingId now
  forEach leases fun lease => revokeTokenLeaseAtTarget lease now true

/-- What an account that was authorized again no longer covers. -/
def ResourceConnection.covers (connection : ResourceConnection)
    (authorizationDetailsRequired : Bool) (e : ScopeEntitlement) : Bool :=
  connection.grantedScopes.contains e.scope &&
    (!authorizationDetailsRequired || !e.authorizationDetails.isEmpty) &&
    isAuthorizationDetailsSubset e.authorizationDetails connection.authorizationDetails

def revokeUncoveredEntitlements (connection : ResourceConnection)
    (authorizationDetailsRequired : Bool) (controllerUserId : Id) (now : ℕ) : Access Unit := do
  let entitlements ← listActiveEntitlementsByConnection connection.id now
  forEach (entitlements.filter fun e => !connection.covers authorizationDetailsRequired e)
    fun entitlement => do
      let leaseIds ← revokeEntitlementTokenLeasesAtTarget entitlement now
      let audit ← resourceAuditRecord (accessRevokedAudit entitlement none (some connection)
        entitlement.sourceAccessRequestId controllerUserId
        (some "connection_authorization_changed"))
      let _ ← endEntitlementWithAudit entitlement.id .revoked leaseIds now audit

def revokeRealmrootCustodiedProviderAuthorization (connection : ResourceConnection) :
    Access Unit :=
  if connection.activeCredentials = [] then return ()
  else do
    let resource ← look (·.findResource connection.resourceId)
    let resource ← orThrow resource (notFound "Resource Server was not found.")
    forEach connection.activeCredentials fun credential => do
      let authorization ← connectorOAuthAuthorization resource credential.clientGeneration
      let authorization ← orThrow authorization
        (badGateway "Provider authorization configuration is unavailable.")
      call (·.revocation authorization.revocationEndpoint)
      call (·.revocation authorization.revocationEndpoint)

/-- The authorization is revoked unless it already was. -/
def revokeActiveConnection (connectionId : Id) (now : ℕ) : Access Unit := do
  let active ← look (·.activeConnection connectionId)
  require active (badRequest "Resource account connection is already revoked.")
  commit (.revokeConnection connectionId now) (Repository.revokeConnection connectionId now)

def revokeResourceConnection (connectionId actorUserId : Id) : Access Unit := do
  let connection ← requireControlledConnection connectionId actorUserId
  revokeRealmrootCustodiedProviderAuthorization connection
  let now ← clock
  let entitlements ← listActiveEntitlementsByConnection connection.id now
  forEach entitlements fun entitlement => revokeAgentPermission entitlement.id actorUserId
  let now ← clock
  revokeActiveConnection connectionId now

def disconnectProviderConnection (connectionId actorUserId : Id) : Access Unit := do
  let found ← look (·.findProviderConnection connectionId)
  let connection ← orThrow (found.filter fun c => c.owner = .user actorUserId)
    (notFound "Provider Connection was not found.")
  let accounts ← look fun d => (d.accounts.filter fun a => a.userId = actorUserId).length
  require (connection.authenticationAccountId = none ∨ 1 < accounts)
    (badRequest "Add another sign-in method before disconnecting this Provider.")
  let connections ← look (·.listConnectionsByUser actorUserId)
  forEach (connections.filter fun c => c.providerConnectionId = connectionId ∧ c.status = .active)
    fun c => revokeResourceConnection c.id actorUserId
  let current ← look (·.findProviderConnection connectionId)
  let current ← orThrow (current.filter fun c => c.owner = .user actorUserId)
    (badRequest "Provider Connection is already disconnected.")
  commit
    (.revokeProviderConnection connectionId actorUserId current.authenticationAccountId)
    (Repository.revokeProviderConnection connectionId actorUserId current.authenticationAccountId)

/-- `revokeResourceAuthorizationsByConnector`: a connector reset detaches its connections. -/
def revokeResourceAuthorizationsByConnector (connectorId : Id) : Access Unit := do
  let now ← clock
  let ids ← look fun d => (d.authorizations.filter fun a => a.status = .active ∧
    d.resources.any fun r => r.id = a.resourceId ∧ r.connectorId = some connectorId).map (·.id)
  commit (.revokeResourceAuthorizations ids now) (Repository.revokeResourceAuthorizations ids now)

def deleteResource (resourceId : Id) (controllerUserId : Option Id) : Access Unit := do
  let resource ← look (·.findResource resourceId)
  let resource ← orThrow resource (notFound "API resource was not found.")
  require (!resource.isRealmroot)
    (badRequest "The Realmroot Resource Server is system-managed.")
  let now ← clock
  let id ← generateId
  let audit : AuditEvent := {
    id := id
    action := "api_resource.deleted"
    result := "allowed"
    owner := .organization resource.ownerOrganizationId
    controllerUserId := controllerUserId
    actor := none
    agentIdentityId := none
    hostId := none
    resourceId := resourceId
    resourceConnectionId := none
    accessRequestId := none
    scopes := []
    reasonCode := none
    metadata := [.object [("authorizationRecordsRevoked", .bool true)]]
    occurredAt := now }
  -- The repository looks the resource up once more before its batch.
  let active ← look (·.findResource resourceId)
  require active.isSome (notFound "API resource was not found.")
  commit (.deleteResource resourceId now audit) (Repository.deleteResource resourceId now audit)

end FlareAuth
