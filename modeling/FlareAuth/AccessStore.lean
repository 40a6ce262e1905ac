import FlareAuth.Concurrent.Procedure
import FlareAuth.DirectoryChange

/-!
# The store of agent access

Access requests, scope entitlements, token leases and audit events, together
with the directory, the clock and what the systems outside answer. Digests are
symbolic: SHA-256 is trusted to be injective, so a digest is kept as the value
it was taken of.
-/

namespace FlareAuth

structure Digest (α : Type) where
  preimage : α
  deriving DecidableEq

def sha256 {α : Type} (value : α) : Digest α := ⟨value⟩

inductive RequestStatus where
  | pending
  | approved
  | denied
  | consumed
  deriving DecidableEq, Repr

inductive Mode where
  | persistent
  | expiring
  | once
  deriving DecidableEq, Repr

/-- A mode together with its expiry. The check constraint on the two columns gives an expiry to
the mode `until` and to no other. -/
inductive Lifetime where
  | persistent
  | expiring (expiresAt : ℕ)
  | once
  deriving DecidableEq, Repr

def Lifetime.mode : Lifetime → Mode
  | .persistent => .persistent
  | .expiring _ => .expiring
  | .once => .once

def Lifetime.expiresAt : Lifetime → Option ℕ
  | .expiring t => some t
  | _ => none

inductive EndReason where
  | revoked
  | consumed
  | expired
  | merged
  deriving DecidableEq, Repr

/-- The holder of an entitlement; the check constraints allow exactly one, and an Organization
only beside a user. -/
inductive Subject where
  | user (id : Id) (organizationId : Option Id)
  | application (id : Id)
  | agent (id : Id)
  deriving DecidableEq, Repr

inductive Grantor where
  | user (id : Id)
  | agent (id : Id)
  deriving DecidableEq, Repr

structure ApprovedEntitlement where
  scope : String
  entitlementId : Id
  deriving DecidableEq, Repr

structure AgentAccessRequest where
  id : Id
  resourceId : Id
  connectionId : Option Id
  agentIdentityId : Id
  bindingId : Id
  scopes : List String
  authorizationDetails : List AuthorizationDetail
  reason : Option String
  status : RequestStatus
  approvalToken : String
  approvedEntitlements : List ApprovedEntitlement
  expiresAt : ℕ
  decidedAt : Option ℕ
  createdAt : ℕ
  deriving DecidableEq

structure ScopeEntitlement where
  id : Id
  subject : Subject
  resourceServerId : Id
  connectionId : Option Id
  authorizationDetails : List AuthorizationDetail
  authorizationContextHash : Digest String
  scope : String
  lifetime : Lifetime
  grantedBy : Grantor
  sourceAccessRequestId : Option Id
  ended : Option (ℕ × EndReason)
  createdAt : ℕ
  deriving DecidableEq

namespace ScopeEntitlement

def mode (e : ScopeEntitlement) : Mode := e.lifetime.mode

def expiresAt (e : ScopeEntitlement) : Option ℕ := e.lifetime.expiresAt

def agentIdentityId (e : ScopeEntitlement) : Option Id :=
  match e.subject with
  | .agent id => some id
  | _ => none

def userId (e : ScopeEntitlement) : Option Id :=
  match e.subject with
  | .user id _ => some id
  | _ => none

def unexpired (e : ScopeEntitlement) (now : ℕ) : Bool :=
  e.expiresAt.elim true fun t => decide (now < t)

/-- Not ended and not expired. -/
def active (e : ScopeEntitlement) (now : ℕ) : Bool := e.ended.isNone && e.unexpired now

/-- The columns of the three partial unique indexes on entitlements that have not ended. -/
structure ActiveKey where
  subject : Subject
  resourceServerId : Id
  connectionId : Id
  authorizationContextHash : Digest String
  scope : String
  deriving DecidableEq

def activeKey (e : ScopeEntitlement) : Option ActiveKey :=
  if e.ended.isSome then none
  else
    match e.subject with
    | .user id organizationId => some ⟨.user id (some (organizationId.getD "")),
        e.resourceServerId, "", e.authorizationContextHash, e.scope⟩
    | .application id => some ⟨.application id, e.resourceServerId, "",
        e.authorizationContextHash, e.scope⟩
    | .agent id => some ⟨.agent id, e.resourceServerId, e.connectionId.getD "",
        e.authorizationContextHash, e.scope⟩

end ScopeEntitlement

structure Actor where
  iss : String
  sub : String
  deriving DecidableEq, Repr

structure AgentBindingClaim where
  protocolAgentId : Id
  hostId : Id
  runtime : Option String
  sessionId : Option String
  deriving DecidableEq, Repr

structure AgentTokenClaims where
  iss : String
  sub : String
  aud : String
  jti : String
  iat : ℕ
  exp : ℕ
  scope : String
  groups : List String
  clientId : String
  organization : Option Id
  authorizationDetails : List AuthorizationDetail
  realmrootAuthority : Option AuthorizationDetail
  confirmationJkt : String
  act : Actor
  binding : AgentBindingClaim
  deriving DecidableEq

/-- A token signed here, kept as its claims, or one that an external server issued. -/
inductive AccessToken where
  | signed (claims : AgentTokenClaims)
  | external (value : String)
  deriving DecidableEq

structure TokenLease where
  id : Id
  entitlementIds : List Id
  requestId : Id
  bindingId : Id
  accessToken : AccessToken
  tokenHash : Digest AccessToken
  confirmationJkt : String
  scopes : List String
  authorizationDetails : List AuthorizationDetail
  expiresAt : ℕ
  revokedAt : Option ℕ
  createdAt : ℕ
  deriving DecidableEq

/-- Unexpired and not revoked. -/
def TokenLease.active (l : TokenLease) (now : ℕ) : Bool :=
  decide (now < l.expiresAt) && l.revokedAt.isNone

structure AuditEvent where
  id : Id
  action : String
  result : String
  owner : Owner
  controllerUserId : Option Id
  actor : Option Actor
  agentIdentityId : Option Id
  hostId : Option Id
  resourceId : Id
  resourceConnectionId : Option Id
  accessRequestId : Option Id
  scopes : List String
  reasonCode : Option String
  metadata : List AuthorizationDetail
  occurredAt : ℕ
  deriving DecidableEq

structure CatalogItem where
  authorizationDetail : AuthorizationDetail
  grantedScopes : Option (List String)

/-- A page of an authorization detail catalog that passed the response schema. -/
structure CatalogPage where
  items : List CatalogItem
  page : ℕ
  pageSize : ℕ
  totalItems : ℕ
  totalPages : ℕ

/-- A JSON member that may be missing or have the wrong shape. -/
inductive Presence (α : Type) where
  | absent
  | malformed
  | value (a : α)

/-- The response of a target authorization server to a token exchange. -/
structure TokenResponse where
  accessToken : Option String
  tokenType : String
  expiresIn : Option ℕ
  scope : Option String
  authorizationDetails : Presence (List AuthorizationDetail)
  dpopNonce : Option String

/-- What the systems outside answer. It may change between any two operations. -/
structure World where
  catalogPages : ℕ
  catalogPage : (endpoint : String) → (page : ℕ) → Except Failure CatalogPage
  providerToken : (credentialId : Id) → Except Failure String
  connectorGeneration : (connectorId : Id) → (scopes : List String) → Except Failure ℕ
  connectorMetadata : (connectorId : Id) → Except Failure Unit
  scopeDiscovery : (resourceId : Id) → Except Failure Unit
  dpopThumbprint : (proof url : String) → Except Failure String
  actorGrant : (tokenEndpoint : String) → Except Failure String
  tokenExchange : (tokenEndpoint resourceUrl scope : String) → Except Failure TokenResponse
  revocation : (endpoint : String) → Except Failure Unit
  teamNames : (organizationId userId : Id) → List String

structure Store where
  now : ℕ
  generated : ℕ
  directory : Directory
  world : World
  requests : List AgentAccessRequest
  entitlements : List ScopeEntitlement
  leases : List TokenLease
  audits : List AuditEvent

end FlareAuth
