import FlareAuth.AccessOperation

/-!
# The store of token exchange

OAuth clients, Applications with their federated credentials, the tokens that an
exchange stores and the pending account connections, beside the store of agent
access. No modelled operation deletes a row of these tables. A random refresh
token is the prefix with a fresh identifier, and a signed token is its payload.
-/

namespace FlareAuth

def DirectoryChange.keepsResources : DirectoryChange → Bool
  | .resource row => row.deletedAt.isNone
  | _ => true

/-- Administration creates and changes Resource Servers; only their deletion deletes them. -/
def Operation.keepsResources : Operation → Bool
  | .administer change => change.keepsResources
  | _ => true

end FlareAuth

namespace FlareAuth.TokenExchange

open Concurrent Relational

/-- A client with its list of grant types as `parseList` reads it. -/
structure OAuthClient where
  clientId : String
  clientSecret : Option (Digest String)
  disabled : Bool
  grantTypes : List String

structure ResourceScopesConfiguration where
  resourceServerId : Id
  scopes : List String

structure ScopeMapping where
  sourceScope : String
  targetScope : String

inductive TokenExchangePolicy where
  | resourceServer (sourceResourceServerId targetResourceServerId : Id)
      (scopeMappings : List ScopeMapping)
  | application (sourceResourceServerId targetApplicationId : Id)

structure Application where
  id : Id
  oauthClientId : String
  ownerOrganizationId : Id
  visibility : Visibility
  disabled : Bool
  consentRequired : Bool
  oidcScopes : List String
  resourceScopes : List ResourceScopesConfiguration
  tokenExchangePolicies : List TokenExchangePolicy

structure FederatedCredential where
  id : Id
  applicationId : Id
  issuer : String
  subject : String
  audienceResourceId : Id
  enabled : Bool

structure TokenGrant where
  clientId : String
  credentialId : Id
  subject : String
  subjectTokenIssuer : String
  audience : String
  scopes : List String
  claims : Json
  deriving DecidableEq

structure AccessTokenRow where
  id : Id
  tokenHash : Digest Json
  grant : TokenGrant
  expiresAt : ℕ
  revokedAt : Option ℕ
  deriving DecidableEq

structure RefreshTokenRow where
  id : Id
  familyId : Id
  parentId : Option Id
  tokenHash : Digest String
  grant : TokenGrant
  expiresAt : ℕ
  consumedAt : Option ℕ
  revokedAt : Option ℕ
  deriving DecidableEq

inductive IntentStatus where
  | pending
  | completed
  | cancelled
  deriving DecidableEq, Repr

structure ConnectionIntent where
  id : Id
  stateHash : Digest String
  resourceId : Id
  owner : Owner
  initiatedByUserId : Id
  scopes : List String
  authorizationDetails : List AuthorizationDetail
  clientGeneration : ℕ
  returnTo : String
  status : IntentStatus
  expiresAt : ℕ
  completedAt : Option ℕ

def ConnectionIntent.completed (i : ConnectionIntent) (now : ℕ) : ConnectionIntent :=
  { i with status := .completed, completedAt := some now }

structure Site where
  access : Store
  clients : List OAuthClient
  applications : List Application
  federatedCredentials : List FederatedCredential
  accessTokens : List AccessTokenRow
  refreshTokens : List RefreshTokenRow
  connectionIntents : List ConnectionIntent

abbrev SiteBatch := Batch Site Failure

def uniqueViolation : Failure := .error "UNIQUE constraint failed"

def foreignKeyViolation : Failure := .error "FOREIGN KEY constraint failed"

structure ResolvedFederatedCredential where
  id : Id
  applicationClientId : String
  ownerOrganizationId : Id
  issuer : String
  subject : String
  audience : String
  enabled : Bool

namespace Site

def findClient (s : Site) (clientId : String) : Option OAuthClient :=
  s.clients.find? fun c => c.clientId = clientId

def findByClientId (s : Site) (clientId : String) : Option Application :=
  (s.findClient clientId).bind fun c => s.applications.find? fun a => a.oauthClientId = c.clientId

def findApplication (s : Site) (id : Id) : Option Application :=
  s.applications.find? fun a => a.id = id ∧ (s.findClient a.oauthClientId).isSome

/-- The join of a credential that is enabled, as are its Application and its audience. -/
def resolve (s : Site) (c : FederatedCredential) : Option ResolvedFederatedCredential := do
  let application ← s.applications.find? fun a => a.id = c.applicationId
  let resource ← s.access.directory.resources.find? fun r => r.id = c.audienceResourceId
  guard (!application.disabled ∧ resource.enabled ∧ c.enabled)
  return {
    id := c.id
    applicationClientId := application.oauthClientId
    ownerOrganizationId := application.ownerOrganizationId
    issuer := c.issuer
    subject := c.subject
    audience := resource.resourceUrl
    enabled := c.enabled }

def resolvedCredentials (s : Site) : List ResolvedFederatedCredential :=
  s.federatedCredentials.filterMap s.resolve

def findFederatedCredentials (s : Site) (applicationClientId issuer : String) :
    List ResolvedFederatedCredential :=
  s.resolvedCredentials.filter fun c =>
    c.applicationClientId = applicationClientId ∧ c.issuer = issuer

def findFederatedCredentialForClient (s : Site) (id : Id) (clientId : String) :
    Option ResolvedFederatedCredential :=
  s.resolvedCredentials.find? fun c => c.id = id ∧ c.applicationClientId = clientId

def getFederatedCredential (s : Site) (applicationId id : Id) : Option FederatedCredential :=
  s.federatedCredentials.find? fun c => c.id = id ∧ c.applicationId = applicationId

def findRefreshTokenByHash (s : Site) (tokenHash : Digest String) : Option RefreshTokenRow :=
  s.refreshTokens.find? fun t => t.tokenHash = tokenHash

def hasCredential (s : Site) (id : Id) : Bool := s.federatedCredentials.any fun c => c.id == id

end Site

structure UpdateFederatedCredential where
  subject : Option String
  audienceResourceId : Option Id
  enabled : Option Bool

def FederatedCredential.patched (patch : UpdateFederatedCredential) (c : FederatedCredential) :
    FederatedCredential :=
  { c with
    subject := patch.subject.getD c.subject
    audienceResourceId := patch.audienceResourceId.getD c.audienceResourceId
    enabled := patch.enabled.getD c.enabled }

/-- The input of a rotation: the successor, its access token and the clock of the batch. -/
structure Rotation where
  refreshToken : RefreshTokenRow
  accessToken : AccessTokenRow
  now : ℕ

/-- The token that a rotation starts from: the parent, neither consumed nor revoked. -/
def Rotation.parentIsActive (r : Rotation) (t : RefreshTokenRow) : Bool :=
  some t.id == r.refreshToken.parentId && t.consumedAt.isNone && t.revokedAt.isNone

namespace Repository

/-- The insert of an access token, under its primary key, its unique hash and its credential. -/
def insertAccessToken (input : AccessTokenRow) : SiteBatch Unit := fun s =>
  if !s.hasCredential input.grant.credentialId then .error foreignKeyViolation
  else if s.accessTokens.any fun t => t.id == input.id || t.tokenHash == input.tokenHash then
    .error uniqueViolation
  else .ok ((), { s with accessTokens := s.accessTokens ++ [input] })

/-- The insert of a refresh token; a parent has one successor. -/
def insertRefreshToken (input : RefreshTokenRow) : SiteBatch Unit := fun s =>
  if !s.hasCredential input.grant.credentialId then .error foreignKeyViolation
  else if s.refreshTokens.any fun t => t.id == input.id || t.tokenHash == input.tokenHash ||
      (input.parentId.isSome && t.parentId == input.parentId) then .error uniqueViolation
  else .ok ((), { s with refreshTokens := s.refreshTokens ++ [input] })

/-- Inserts one row for each row that the condition selects, which is one or none, and says
whether it did. -/
def insertSelected (insert : SiteBatch Unit) (selected : Site → Bool) : SiteBatch Bool := do
  if ← Batch.read selected then
    insert
    return true
  else return false

def consumeParent (r : Rotation) : SiteBatch Bool := do
  let found ← Batch.read fun s => s.refreshTokens.any r.parentIsActive
  Batch.modify fun s => { s with
    refreshTokens := updateWhere r.parentIsActive (fun t => { t with consumedAt := some r.now })
      s.refreshTokens }
  return found

def rotateRefreshToken (r : Rotation) : SiteBatch Bool := do
  let children ← insertSelected (insertRefreshToken r.refreshToken) fun s =>
    s.refreshTokens.any r.parentIsActive
  let parents ← consumeParent r
  let accessTokens ← insertSelected (insertAccessToken r.accessToken) fun s =>
    s.refreshTokens.any fun t => t.id == r.refreshToken.id
  return children && parents && accessTokens

def revokeRefreshTokens (selected : RefreshTokenRow → Bool) (now : ℕ) : SiteBatch Unit :=
  Batch.modify fun s => { s with
    refreshTokens := updateWhere selected (fun t => { t with revokedAt := some now })
      s.refreshTokens }

def createFederatedCredential (input : FederatedCredential) : SiteBatch Unit := fun s =>
  if s.federatedCredentials.any fun c => c.id == input.id ||
      (c.applicationId == input.applicationId && c.issuer == input.issuer &&
        c.subject == input.subject) then .error uniqueViolation
  else .ok ((), { s with federatedCredentials := s.federatedCredentials ++ [input] })

def updateFederatedCredential (applicationId id : Id) (patch : UpdateFederatedCredential) :
    SiteBatch Unit :=
  Batch.modify fun s => { s with
    federatedCredentials := updateWhere (fun c => c.id == id && c.applicationId == applicationId)
      (·.patched patch) s.federatedCredentials }

/-- The insert of an intent selects its resource, which must be active. -/
def createConnectionIntent (input : ConnectionIntent) : SiteBatch Bool := fun s =>
  if (s.access.directory.activeResource input.resourceId).isNone then .ok (false, s)
  else if s.connectionIntents.any fun i => i.id == input.id || i.stateHash == input.stateHash then
    .error uniqueViolation
  else .ok (true, { s with connectionIntents := s.connectionIntents ++ [input] })

/-- The pending intent of a state, which its consumption completes. -/
def consumable (stateHash : Digest String) (now : ℕ) (i : ConnectionIntent) : Bool :=
  i.stateHash == stateHash && i.status == .pending && decide (now < i.expiresAt)

def consumeConnectionIntent (stateHash : Digest String) (now : ℕ) :
    SiteBatch (Option ConnectionIntent) := do
  let found ← Batch.read fun s => s.connectionIntents.find? (consumable stateHash now)
  Batch.modify fun s => { s with
    connectionIntents := updateWhere (consumable stateHash now) (·.completed now)
      s.connectionIntents }
  return found.map (·.completed now)

def credentialsFor (id : Id) (s : Site) : List Id :=
  (s.federatedCredentials.filter fun c => c.audienceResourceId = id).map (·.id)

/-- The statements of the deletion of a Resource Server beyond agent access. -/
def deleteResource (id : Id) (now : ℕ) (s : Site) : Site :=
  { s with
    connectionIntents := updateWhere (fun i => i.resourceId == id && i.status == .pending)
      (fun i => { i with status := .cancelled, completedAt := some now }) s.connectionIntents
    applications := s.applications.map fun a =>
      { a with resourceScopes := a.resourceScopes.filter fun c => c.resourceServerId != id }
    federatedCredentials := updateWhere (fun c => c.audienceResourceId == id && c.enabled)
      (fun c => { c with enabled := false }) s.federatedCredentials
    accessTokens := updateWhere
      (fun t => t.revokedAt.isNone && (credentialsFor id s).contains t.grant.credentialId)
      (fun t => { t with revokedAt := some now }) s.accessTokens
    refreshTokens := updateWhere
      (fun t => t.revokedAt.isNone && (credentialsFor id s).contains t.grant.credentialId)
      (fun t => { t with revokedAt := some now }) s.refreshTokens }

end Repository

inductive SiteOperation where
  | read
  | access (op : Operation)
  | clients (rows : List OAuthClient)
  | applications (rows : List Application)
  | createFederatedCredential (input : FederatedCredential)
  | updateFederatedCredential (applicationId id : Id) (patch : UpdateFederatedCredential)
  | storeAccessToken (input : AccessTokenRow)
  | insertRefreshToken (input : RefreshTokenRow)
  | revokeRefreshToken (id : Id) (now : ℕ)
  | revokeRefreshTokenFamily (familyId : Id) (now : ℕ)
  | rotateRefreshToken (rotation : Rotation)
  | createConnectionIntent (input : ConnectionIntent)
  | consumeConnectionIntent (stateHash : Digest String) (now : ℕ)

/-- What an operation of agent access does to the other tables, in the same batch. -/
def Site.cascade (s : Site) : Operation → Site
  | .deleteResource id now _ => Repository.deleteResource id now s
  | _ => s

def SiteOperation.perform : SiteOperation → Site → Site
  | .read, s => s
  | .access op, s =>
    if op.keepsResources then { s.cascade op with access := op.perform s.access } else s
  | .clients rows, s => { s with clients := rows }
  | .applications rows, s => { s with applications := rows }
  | .createFederatedCredential input, s => (Repository.createFederatedCredential input).settle s
  | .updateFederatedCredential applicationId id patch, s =>
    (Repository.updateFederatedCredential applicationId id patch).settle s
  | .storeAccessToken input, s => (Repository.insertAccessToken input).settle s
  | .insertRefreshToken input, s => (Repository.insertRefreshToken input).settle s
  | .revokeRefreshToken id now, s =>
    (Repository.revokeRefreshTokens (fun t => t.id == id) now).settle s
  | .revokeRefreshTokenFamily familyId now, s =>
    (Repository.revokeRefreshTokens (fun t => t.familyId == familyId && t.revokedAt.isNone)
      now).settle s
  | .rotateRefreshToken rotation, s => (Repository.rotateRefreshToken rotation).settle s
  | .createConnectionIntent input, s => (Repository.createConnectionIntent input).settle s
  | .consumeConnectionIntent stateHash now, s =>
    (Repository.consumeConnectionIntent stateHash now).settle s

instance : Operational SiteOperation Site := ⟨SiteOperation.perform⟩

theorem apply_eq (op : SiteOperation) (s : Site) : apply op s = op.perform s := rfl

abbrev Exchange := Procedure Site SiteOperation Failure

variable {α : Type}

def ask (answer : Site → α) : Exchange α := Procedure.query .read answer

def onAccess (p : Access α) : Exchange α := p.lift Site.access .access

def commit (op : SiteOperation) (batch : SiteBatch α) : Exchange α :=
  Procedure.step op fun s => Procedure.ofExcept (batch.outcome s)

end FlareAuth.TokenExchange
