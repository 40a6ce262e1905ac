import FlareAuth.AccessRequest

/-!
# Issuing target access tokens

An approved request is exchanged for a token with the scopes of the active
entitlements of its Context. Whatever was read before is checked again by the
conditional insert of the lease, in the batch that also consumes one-time
entitlements.
-/

namespace FlareAuth

open Concurrent Procedure Access

variable [Locale]

/-- Entitlements in the order of `localeCompare` on their scopes. -/
def sortByScope (entitlements : List ScopeEntitlement) : List ScopeEntitlement :=
  entitlements.insertionSort fun x y => localeCompare x.scope y.scope ≠ .gt

theorem mem_sortByScope {entitlements : List ScopeEntitlement} {e : ScopeEntitlement} :
    e ∈ sortByScope entitlements ↔ e ∈ entitlements := List.mem_insertionSort _

def contextEntitlements (request : AgentAccessRequest) (entitlements : List ScopeEntitlement) :
    List ScopeEntitlement :=
  sortByScope (entitlements.filter fun e =>
    e.resourceServerId == request.resourceId && e.connectionId == request.connectionId &&
      exactAuthorizationDetails e.authorizationDetails request.authorizationDetails)

def earliestEntitlementExpiry (entitlements : List ScopeEntitlement) : Option ℕ :=
  (entitlements.filterMap (·.expiresAt)).min?

/-- What a token is issued for: a stored request and the entitlements that back it. -/
structure IssuanceContext where
  principal : AgentResourcePrincipal
  request : AgentAccessRequest
  entitlements : List ScopeEntitlement
  resource : ApiResource

namespace IssuanceContext

def scopes (c : IssuanceContext) : List String := Text.sort (c.entitlements.map (·.scope))

def entitlementIds (c : IssuanceContext) : List Id := c.entitlements.map (·.id)

/-- The entitlements read with the mode `once`. -/
def consumed (c : IssuanceContext) : List Id :=
  (c.entitlements.filter fun e => e.mode = .once).map (·.id)

def boundary (c : IssuanceContext) : TokenLeaseBoundary where
  agentIdentityId := c.request.agentIdentityId
  resourceServerId := c.request.resourceId
  connectionId := c.request.connectionId
  authorizationContextHash := contextHash c.request.authorizationDetails
  scopes := c.scopes

def lease (c : IssuanceContext) (id : Id) (token : AccessToken) (confirmationJkt : String)
    (expiresAt now : ℕ) : TokenLease where
  id := id
  entitlementIds := c.entitlementIds
  requestId := c.request.id
  bindingId := c.principal.binding.id
  accessToken := token
  tokenHash := sha256 token
  confirmationJkt := confirmationJkt
  scopes := c.scopes
  authorizationDetails := c.request.authorizationDetails
  expiresAt := expiresAt
  revokedAt := none
  createdAt := now

def issuance (c : IssuanceContext) (lease : TokenLease) (audit : AuditEvent) : Issuance where
  lease := lease
  boundary := c.boundary
  consumeEntitlementIds := c.consumed
  now := lease.createdAt
  audit := audit

end IssuanceContext

/-- The token's answer, taken from the lease that was stored. -/
structure IssuedToken where
  lease : TokenLease
  expiresIn : ℕ
  resourceUrl : String

def storeTokenLease (c : IssuanceContext) (connection : Option ResourceConnection)
    (token : AccessToken) (confirmationJkt : String) (expiresAt now : ℕ) :
    Access TokenLease := do
  let leaseId ← generateId
  let audit ← resourceAuditRecord {
    action := "api_resource.token_issued"
    result := "allowed"
    principal := some c.principal
    request := some c.request
    resourceId := c.resource.id
    connection := connection
    accessRequestId := some c.request.id
    controllerUserId := none
    scopes := c.scopes
    authorizationDetails := c.request.authorizationDetails
    reasonCode := none }
  let lease ← issueTokenLeaseWithAudit
    (c.issuance (c.lease leaseId token confirmationJkt expiresAt now) audit)
  orThrow lease (forbidden "Approved Entitlements changed before token issuance.")

def realmrootCliClientId : String := "realmroot-cli"

/-- The scopes that a native token carries: at Realmroot's own API also the bootstrap scopes. -/
def IssuanceContext.issuedScopes (c : IssuanceContext) : List String :=
  if c.resource.isRealmroot then Text.sort (Text.unique (agentBootstrapScopes ++ c.scopes))
  else c.scopes

def IssuanceContext.authority (c : IssuanceContext) : AuthorizationDetail :=
  c.request.authorizationDetails.headD .null

def IssuanceContext.tokenOrganizationId (c : IssuanceContext) : Option Id :=
  if c.authority.stringField "authority" = some "organization" then c.authority.stringField "id"
  else none

def IssuanceContext.claims (c : IssuanceContext) (jti : String) (groups : List String)
    (confirmationJkt : String) (expiresAt now : ℕ) : AgentTokenClaims where
  iss := c.principal.issuer
  sub := c.principal.identity.ownerUserId
  aud := c.resource.resourceUrl
  jti := jti
  iat := now / 1000
  exp := expiresAt / 1000
  scope := Text.join c.issuedScopes
  groups := groups
  clientId := realmrootCliClientId
  organization := c.tokenOrganizationId
  authorizationDetails := c.request.authorizationDetails
  realmrootAuthority := if c.resource.isRealmroot then some c.authority else none
  confirmationJkt := confirmationJkt
  act := ⟨c.principal.issuer, c.principal.subject⟩
  binding := ⟨c.principal.protocolAgentId, c.principal.hostId, c.principal.runtime,
    c.principal.sessionId⟩

/-- Five minutes, or until the first of the entitlements expires. -/
def nativeExpiry (entitlements : List ScopeEntitlement) (now : ℕ) : ℕ :=
  match earliestEntitlementExpiry entitlements with
  | some t => if t < now + 5 * 60 * 1000 then t else now + 5 * 60 * 1000
  | none => now + 5 * 60 * 1000

structure TokenProof where
  dpopProof : String
  tokenRequestUrl : String
  signerIssuer : String

def issueNativeAccessToken (c : IssuanceContext) (proof : TokenProof) : Access IssuedToken := do
  require (c.request.connectionId = none)
    (forbidden "Native API resource grants cannot use account connections.")
  require (proof.signerIssuer = c.principal.issuer)
    (forbidden "Agent identity does not belong to the active OAuth issuer.")
  requireCurrentNativeAuthorityContext c.principal.identity.ownerUserId
    c.request.authorizationDetails
  let confirmationJkt ← call (·.dpopThumbprint proof.dpopProof proof.tokenRequestUrl)
  let now ← clock
  let expiresAt := nativeExpiry c.entitlements now
  Procedure.ofExcept (assertNativeAuthoritySelection c.request.authorizationDetails)
  let groups ← ask .outside fun s => c.tokenOrganizationId.elim [] fun organizationId =>
    s.world.teamNames organizationId c.principal.identity.ownerUserId
  let jti ← generateId
  let token := AccessToken.signed (c.claims jti groups confirmationJkt expiresAt now)
  let lease ← storeTokenLease c none token confirmationJkt expiresAt now
  return ⟨lease, max 1 ((expiresAt - now) / 1000), c.resource.resourceUrl⟩

def readAuthorizationDetails (value : Presence (List AuthorizationDetail)) (required : Bool)
    (allowedTypes : List (Option Json)) (label : String) :
    Except Failure (List AuthorizationDetail) :=
  let malformed := Except.error (invalidAuthorizationDetails
    (label ++ " has malformed authorization_details."))
  match value with
  | .absent => if required then malformed else .ok []
  | .malformed => malformed
  | .value details =>
    if required && details.isEmpty then malformed
    else if details.any fun detail => !allowedTypes.contains (detail.field "type") then
      .error (invalidAuthorizationDetails
        (label ++ " contains an unknown authorization detail type."))
    else .ok details

def requiredAccessToken (token : TokenResponse) : Except Failure String :=
  match token.accessToken.filter (· ≠ "") with
  | none => .error (badRequest "Token exchange response is missing access_token.")
  | some accessToken =>
    if token.tokenType.toLower ≠ "dpop" then .error
      (unauthorized "Target authorization server did not issue a DPoP-bound access token.")
    else .ok accessToken

/-- The lifetime of the token in seconds, within an hour and within every entitlement. -/
def requiredLifetime (entitlements : List ScopeEntitlement) (token : TokenResponse) (now : ℕ) :
    Except Failure ℕ :=
  match token.expiresIn.filter (0 < ·) with
  | none => .error (badRequest "Token exchange response has invalid expires_in.")
  | some expiresIn =>
    if 3600 < expiresIn then .error (unauthorized
      "Target authorization server issued an access token with an excessive lifetime.")
    else if (earliestEntitlementExpiry entitlements).any fun t => t < now + expiresIn * 1000 then
      .error (unauthorized
        "Target authorization server issued an access token beyond an Entitlement lifetime.")
    else .ok expiresIn

def checkIssuedAuthority (c : IssuanceContext) (token : TokenResponse) : Except Failure Unit := do
  let issuedScope := (token.scope.map fun s => Text.sort (Text.split s)).getD c.scopes
  if !exactScopes issuedScope c.scopes then
    throw (unauthorized "Target authorization server issued a different scope set.")
  let details ← readAuthorizationDetails token.authorizationDetails
    (!c.request.authorizationDetails.isEmpty)
    (c.request.authorizationDetails.map (·.field "type")) "Token exchange response"
  if !exactAuthorizationDetails details c.request.authorizationDetails then
    throw (unauthorized "Target authorization server issued different authorization details.")

/-- The authorization server of an external token, and the checks on the connected account. -/
def prepareExternalIssuance (c : IssuanceContext) (connection : ResourceConnection) :
    Access (ResolvedExternalAuthorization × ProviderCredential) := do
  let contextual ←
    if c.request.authorizationDetails.isEmpty then pure none
    else accountScopesForAuthorizationDetails c.resource connection c.request.authorizationDetails
  let credential ← Procedure.ofExcept
    (if contextual.isNone then
      requireProviderCredential connection c.scopes c.request.authorizationDetails
    else requireProviderCredential connection [] [])
  let connector ← look fun d => c.resource.connectorId.bind d.findConnector
  if (connector.map (·.resourceClientGeneration)).getD 1 = credential.clientGeneration then
    let generation ← call
      (·.connectorGeneration (c.resource.connectorId.getD "") connection.grantedScopes)
    require (generation = credential.clientGeneration)
      (forbidden "The connected account must be reauthorized after OAuth client rotation.")
  let authorization ←
    findExternalAuthorization c.request.resourceId (some credential.clientGeneration)
  let authorization ← orThrow (authorization.filter (·.active))
    (forbidden "Active external authorization server is required.")
  Procedure.ofExcept (assertScopeSubset c.scopes (contextual.getD connection.grantedScopes)
    "connected account")
  Procedure.ofExcept (assertAuthorizationDetailsSelection c.resource (some connection)
    c.request.authorizationDetails)
  Procedure.ofExcept (assertAuthorizationDetailsSubset c.request.authorizationDetails
    connection.authorizationDetails "connected account")
  return (authorization, credential)

def issueExternalAccessToken (c : IssuanceContext) (connection : Option ResourceConnection)
    (proof : TokenProof) (now : ℕ) : Access IssuedToken := do
  let connection ← orThrow (connection.filter (·.status = .active))
    (forbidden "Active external API resource grant is required.")
  let (authorization, credential) ← prepareExternalIssuance c connection
  let confirmationJkt ← call (·.dpopThumbprint proof.dpopProof authorization.tokenEndpoint)
  let _ ← refreshConnectionToken credential
  let _ ← call (·.actorGrant authorization.tokenEndpoint)
  let response ← call
    (·.tokenExchange authorization.tokenEndpoint c.resource.resourceUrl (Text.join c.scopes))
  let accessToken ← Procedure.ofExcept (requiredAccessToken response)
  let expiresIn ← Procedure.ofExcept (requiredLifetime c.entitlements response now)
  Procedure.ofExcept (checkIssuedAuthority c response)
  let lease ← storeTokenLease c (some connection) (.external accessToken) confirmationJkt
    (now + expiresIn * 1000) now
  return ⟨lease, expiresIn, c.resource.resourceUrl⟩

def findApprovedAccessRequest (requestId : Id) (identityId : Id) : Access AgentAccessRequest := do
  let found ← findAccessRequest requestId
  orThrow (found.filter fun r =>
      r.agentIdentityId = identityId ∧ (r.status = .approved ∨ r.status = .consumed))
    (forbidden "Approved Agent access request is required.")

def requireIssuableResource (c : AgentAccessRequest) (scopes : List String) (ownerUserId : Id) :
    Access ApiResource := do
  let found ← look (·.findResource c.resourceId)
  let resource ← orThrow (found.filter (·.enabled))
    (forbidden "Enabled Resource Server is required.")
  Procedure.ofExcept (validateResourceRequestedScopes resource scopes)
  let organizationIds ← activeIdentityOrganizationIds ownerUserId
  require (resource.activeVisibleToAgent organizationIds)
    (forbidden "Resource Server is not visible to this Agent.")
  return resource

def issueTargetAccessToken (requestId : Id) (proof : TokenProof)
    (principal : AgentResourcePrincipal) : Access IssuedToken := do
  let request ← findApprovedAccessRequest requestId principal.identityId
  let now ← clock
  let active ← listActiveEntitlementsByAgent principal.identityId now
  let entitlements := contextEntitlements request active
  require (entitlements ≠ [])
    (forbidden "The selected Resource Context has no active Permissions.")
  let resource ← requireIssuableResource request
    (Text.sort (entitlements.map (·.scope))) principal.identity.ownerUserId
  let context : IssuanceContext := ⟨principal, request, entitlements, resource⟩
  let connection ← look fun d => request.connectionId.bind d.findConnection
  if resource.authorizationModel = .external then
    issueExternalAccessToken context connection proof now
  else
    Procedure.ofExcept
      (assertAuthorizationDetailsSelection resource connection request.authorizationDetails)
    issueNativeAccessToken context proof

end FlareAuth
