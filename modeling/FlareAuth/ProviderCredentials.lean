import FlareAuth.Concurrent.Batch
import FlareAuth.Concurrent.Pool
import FlareAuth.ExchangeStore
import FlareAuth.TokenIssuance

/-!
# Provider credentials

A reconnect writes the tokens of a provider credential under a version that it
computed from an earlier read. A refresh claims the credential at the version it
read, exchanges the refresh token, and completes, releases or revokes.
-/

namespace FlareAuth.Credentials

open Concurrent Procedure Relational

/-- The sealed payload of a credential. -/
structure Tokens where
  accessToken : String
  refreshToken : String
  scope : List String
  deriving DecidableEq

structure Credential where
  id : Id
  authorizationId : Id
  tokens : Tokens
  grantedScopes : List String
  authorizationDetails : List AuthorizationDetail
  clientGeneration : ℕ
  credentialVersion : ℕ
  refreshClaimId : Option Id
  refreshClaimExpiresAt : Option ℕ
  status : Status
  credentialExpiresAt : Option ℕ
  revokedAt : Option ℕ
  deriving DecidableEq

structure ProviderAccount where
  id : Id
  connectorId : Id
  owner : Owner
  externalSubject : String
  displayName : String
  status : Status

structure ConnectionIntent where
  id : Id
  state : Digest String
  resourceId : Id
  owner : Owner
  scopes : List String
  authorizationDetails : List AuthorizationDetail
  clientGeneration : ℕ
  pending : Bool
  expiresAt : ℕ

/-- What is kept here of an intent. -/
def ConnectionIntent.ofExchange (i : TokenExchange.ConnectionIntent) : ConnectionIntent where
  id := i.id
  state := i.stateHash
  resourceId := i.resourceId
  owner := i.owner
  scopes := i.scopes
  authorizationDetails := i.authorizationDetails
  clientGeneration := i.clientGeneration
  pending := i.status == .pending
  expiresAt := i.expiresAt

structure ProviderToken where
  accessToken : Option String
  refreshToken : Option String
  scope : Option String
  authorizationDetails : Presence (List AuthorizationDetail)
  expiresIn : Option ℕ

/-- The identity behind a provider account, with the details that some providers report. -/
structure ProviderProfile where
  externalSubject : String
  displayName : String
  authorizationDetails : Option (List AuthorizationDetail)

/-- What providers and configuration answer. -/
structure Provider where
  connectorAuthorization : (resourceId : Id) → (generation : ℕ) → Except Failure Unit
  clientSecret : Except Failure String
  codeExchange : (code : String) → Except Failure ProviderToken
  profile : (accessToken : String) → Except Failure ProviderProfile
  refresh : (refreshToken : String) → Except Failure ProviderToken

structure Store where
  now : ℕ
  generated : ℕ
  provider : Provider
  resources : List ApiResource
  connectorProviders : List (Id × String)
  intents : List ConnectionIntent
  accounts : List ProviderAccount
  authorizations : List ProviderResourceAuthorization
  credentials : List Credential

structure RefreshClaim where
  id : Id
  expectedVersion : ℕ
  claimId : Id
  now : ℕ
  claimExpiresAt : ℕ

structure RefreshedTokens where
  expectedVersion : ℕ
  claimId : Id
  tokens : Tokens
  credentialExpiresAt : Option ℕ

namespace Credential

/-- Active, at the version and under the claim. -/
def claimedAt (c : Credential) (expectedVersion : ℕ) (claimId : Id) : Bool :=
  c.status == .active && c.credentialVersion == expectedVersion && c.refreshClaimId == some claimId

/-- Free to be claimed: never claimed, or the claim has run out. -/
def claimable (c : Credential) (claim : RefreshClaim) : Bool :=
  c.id == claim.id && c.status == .active && c.credentialVersion == claim.expectedVersion &&
    (c.refreshClaimId.isNone || c.refreshClaimExpiresAt.elim true fun t => decide (t ≤ claim.now))

def release (c : Credential) : Credential :=
  { c with refreshClaimId := none, refreshClaimExpiresAt := none }

def revoke (now : ℕ) (c : Credential) : Credential :=
  { c.release with status := .revoked, revokedAt := some now }

def refreshed (input : RefreshedTokens) (c : Credential) : Credential :=
  { c.release with
    tokens := input.tokens
    credentialExpiresAt := input.credentialExpiresAt
    credentialVersion := input.expectedVersion + 1 }

/-- What a conflicting insert updates. -/
def replaced (c input : Credential) : Credential :=
  { c with
    tokens := input.tokens
    grantedScopes := input.grantedScopes
    authorizationDetails := input.authorizationDetails
    clientGeneration := input.clientGeneration
    credentialVersion := input.credentialVersion
    refreshClaimId := none
    refreshClaimExpiresAt := none
    status := .active
    credentialExpiresAt := input.credentialExpiresAt
    revokedAt := none }

end Credential

namespace Store

def nextId (s : Store) : Id := "id-" ++ toString s.generated

def findResource (s : Store) (id : Id) : Option ApiResource :=
  s.resources.find? fun r => r.id = id ∧ r.deletedAt = none

def activeResource (s : Store) (id : Id) : Bool :=
  s.resources.any fun r => r.id = id ∧ r.enabled ∧ r.deletedAt = none

def findCredential (s : Store) (id : Id) : Option Credential :=
  lookup Credential.id id s.credentials

def credentialOf (s : Store) (authorizationId : Id) : Option Credential :=
  s.credentials.find? fun c => c.authorizationId = authorizationId

def findConnectionByProviderResource (s : Store) (providerConnectionId resourceId : Id) :
    Option ProviderResourceAuthorization :=
  s.authorizations.find? fun a =>
    a.providerConnectionId = providerConnectionId ∧ a.resourceId = resourceId

def findProviderConnectionByOwnerConnector (s : Store) (connectorId : Id) (owner : Owner) :
    Option ProviderAccount :=
  s.accounts.find? fun a => a.connectorId = connectorId ∧ a.owner = owner

/-- An active account of a user at the provider of a connector, with the subject. -/
def findActiveUserProviderConnectionByProviderSubject (s : Store) (providerId : String)
    (externalSubject : String) : Option ProviderAccount :=
  s.accounts.find? fun a => a.externalSubject = externalSubject ∧ a.status = .active ∧
    a.owner.userId.isSome ∧ (a.connectorId, providerId) ∈ s.connectorProviders

def setCredentials (s : Store) (p : Credential → Bool) (f : Credential → Credential) : Store :=
  { s with credentials := updateWhere p f s.credentials }

end Store

abbrev StoreBatch := Batch Store Failure

namespace Repository

def consumeConnectionIntent (state : Digest String) (now : ℕ) :
    StoreBatch (Option ConnectionIntent) := fun s =>
  let selects := fun i : ConnectionIntent =>
    i.state == state && i.pending && decide (now < i.expiresAt)
  .ok ((s.intents.find? selects).map ({ · with pending := false }),
    { s with intents := updateWhere selects ({ · with pending := false }) s.intents })

/-- The intents of both models lose the same one to a state, and both answer with it. -/
theorem consumeConnectionIntent_ofExchange {site : TokenExchange.Site} {s : Store}
    (h : s.intents = site.connectionIntents.map .ofExchange) (state : Digest String) (now : ℕ) :
    ∃ intent site',
      TokenExchange.Repository.consumeConnectionIntent state now site = .ok (intent, site') ∧
        consumeConnectionIntent state now s = .ok (intent.map .ofExchange,
          { s with intents := site'.connectionIntents.map .ofExchange }) := by
  refine ⟨_, _, rfl, ?_⟩
  simp only [consumeConnectionIntent, h, List.find?_map, Option.map_map]
  refine congrArg Except.ok (Prod.ext rfl (congrArg (fun intents => { s with intents }) ?_))
  exact updateWhere_map ConnectionIntent.ofExchange (fun _ => rfl) fun _ => rfl

/-- `insert … on conflict do nothing` on the id and on the connector with its owner. -/
def insertProviderConnection (input : ProviderAccount) : StoreBatch Bool := fun s =>
  if s.accounts.any fun a =>
      a.id == input.id || (a.connectorId == input.connectorId && a.owner == input.owner) then
    .ok (false, s)
  else .ok (true, { s with accounts := s.accounts ++ [input] })

def updateProviderConnection (input : ProviderAccount) : StoreBatch (Option ProviderAccount) :=
  fun s =>
    let selects := fun a : ProviderAccount =>
      a.connectorId == input.connectorId && a.owner == input.owner
    let update := fun a : ProviderAccount => { a with
      externalSubject := input.externalSubject
      displayName := input.displayName
      status := input.status }
    .ok ((s.accounts.find? selects).map update,
      { s with accounts := updateWhere selects update s.accounts })

def revokeProviderConnection (id ownerUserId : Id) : StoreBatch Bool := fun s =>
  let selects := fun a : ProviderAccount => a.id == id && a.owner == .user ownerUserId
  .ok (s.accounts.any selects,
    { s with accounts := updateWhere selects ({ · with status := .revoked }) s.accounts })

/-- The primary key and the unique index of a credential. -/
def insertCredential (input : Credential) : StoreBatch Unit := fun s =>
  if s.credentials.any (fun c => c.id == input.id || c.authorizationId == input.authorizationId) ||
      !s.authorizations.any (·.id == input.authorizationId) then
    .error (.error "constraint failed")
  else .ok ((), { s with credentials := s.credentials ++ [input] })

/-- The authorization is inserted if its resource is active, the credential in any case. -/
def createResourceAuthorization (authorization : ProviderResourceAuthorization)
    (credential : Credential) : StoreBatch Unit := do
  let active ← Batch.read (·.activeResource authorization.resourceId)
  let taken ← Batch.read fun s => s.authorizations.any fun a => a.id == authorization.id ||
    (a.providerConnectionId == authorization.providerConnectionId &&
      a.resourceId == authorization.resourceId)
  if active && taken then Batch.fail (.error "constraint failed")
  Batch.modify fun s =>
    if active then { s with authorizations := s.authorizations ++ [authorization] } else s
  insertCredential credential

def upsertProviderCredential (authorizationId : Id) (input : Credential) : StoreBatch Unit := do
  Batch.modify fun s => { s with
    authorizations := updateWhere (fun a => a.id == authorizationId)
      (fun a => { a with status := .active, revokedAt := none }) s.authorizations }
  let existing ← Batch.read fun s => s.credentials.any (·.authorizationId == authorizationId)
  if existing then
    Batch.modify (·.setCredentials (·.authorizationId == authorizationId) (·.replaced input))
  else insertCredential { input with authorizationId := authorizationId }

def claimProviderCredentialRefresh (claim : RefreshClaim) : StoreBatch Bool := do
  let claimed ← Batch.read fun s => s.credentials.any (·.claimable claim)
  Batch.modify (·.setCredentials (·.claimable claim) fun c => { c with
    refreshClaimId := some claim.claimId
    refreshClaimExpiresAt := some claim.claimExpiresAt })
  return claimed

def completeProviderCredentialRefresh (id : Id) (input : RefreshedTokens) : StoreBatch Bool := do
  let selects := fun c : Credential => c.id == id && c.claimedAt input.expectedVersion input.claimId
  let updated ← Batch.read fun s => s.credentials.any selects
  Batch.modify (·.setCredentials selects (·.refreshed input))
  return updated

def releaseProviderCredentialRefresh (id : Id) (expectedVersion : ℕ) (claimId : Id) :
    StoreBatch Unit :=
  Batch.modify (·.setCredentials (fun c => c.id == id && c.claimedAt expectedVersion claimId)
    (·.release))

def revokeProviderCredential (id : Id) (now : ℕ) : StoreBatch (Option Id) := do
  let selects := fun c : Credential => c.id == id && c.status == .active
  let found ← Batch.read fun s => s.credentials.find? selects
  Batch.modify (·.setCredentials selects (·.revoke now))
  return found.map (·.authorizationId)

/-- The second statement: an authorization without an active credential is revoked. -/
def revokeBareAuthorization (id : Id) (now : ℕ) : StoreBatch Unit :=
  Batch.modify fun s => { s with
    authorizations := updateWhere
      (fun a => a.id == id && !s.credentials.any fun c =>
        c.authorizationId == id && c.status == .active)
      (fun a => { a with status := .revoked, revokedAt := some now }) s.authorizations }

def revokeConnection (id : Id) (now : ℕ) : StoreBatch Unit := do
  Batch.modify fun s => { s with
    authorizations := updateWhere (·.id == id)
      (fun a => { a with status := .revoked, revokedAt := some now }) s.authorizations }
  Batch.modify (·.setCredentials (·.authorizationId == id)
    fun c => { c with status := .revoked, revokedAt := some now })

end Repository

inductive Operation where
  | read
  | readCredential (id : Id)
  | refresh (refreshToken : String)
  | generateId
  | elapse (milliseconds : ℕ)
  | outside (provider : Provider)
  | administer (resources : List ApiResource) (connectorProviders : List (Id × String))
  | createConnectionIntent (intent : ConnectionIntent)
  | consumeConnectionIntent (state : Digest String) (now : ℕ)
  | insertProviderConnection (input : ProviderAccount)
  | updateProviderConnection (input : ProviderAccount)
  | revokeProviderConnection (id ownerUserId : Id)
  | createResourceAuthorization (authorization : ProviderResourceAuthorization)
      (credential : Credential)
  | upsertProviderCredential (authorizationId : Id) (input : Credential)
  | claimProviderCredentialRefresh (claim : RefreshClaim)
  | completeProviderCredentialRefresh (id : Id) (input : RefreshedTokens)
  | releaseProviderCredentialRefresh (id : Id) (expectedVersion : ℕ) (claimId : Id)
  | revokeProviderCredential (id : Id) (now : ℕ)
  | revokeBareAuthorization (id : Id) (now : ℕ)
  | revokeConnection (id : Id) (now : ℕ)

def Operation.perform : Operation → Store → Store
  | .read, s | .readCredential _, s | .refresh _, s => s
  | .generateId, s => { s with generated := s.generated + 1 }
  | .elapse milliseconds, s => { s with now := s.now + milliseconds }
  | .outside provider, s => { s with provider := provider }
  | .administer resources connectorProviders, s =>
    { s with resources := resources, connectorProviders := connectorProviders }
  | .createConnectionIntent intent, s => { s with intents := s.intents ++ [intent] }
  | .consumeConnectionIntent state now, s => (Repository.consumeConnectionIntent state now).settle s
  | .insertProviderConnection input, s => (Repository.insertProviderConnection input).settle s
  | .updateProviderConnection input, s => (Repository.updateProviderConnection input).settle s
  | .revokeProviderConnection id ownerUserId, s =>
    (Repository.revokeProviderConnection id ownerUserId).settle s
  | .createResourceAuthorization authorization credential, s =>
    (Repository.createResourceAuthorization authorization credential).settle s
  | .upsertProviderCredential authorizationId input, s =>
    (Repository.upsertProviderCredential authorizationId input).settle s
  | .claimProviderCredentialRefresh claim, s =>
    (Repository.claimProviderCredentialRefresh claim).settle s
  | .completeProviderCredentialRefresh id input, s =>
    (Repository.completeProviderCredentialRefresh id input).settle s
  | .releaseProviderCredentialRefresh id expectedVersion claimId, s =>
    (Repository.releaseProviderCredentialRefresh id expectedVersion claimId).settle s
  | .revokeProviderCredential id now, s => (Repository.revokeProviderCredential id now).settle s
  | .revokeBareAuthorization id now, s => (Repository.revokeBareAuthorization id now).settle s
  | .revokeConnection id now, s => (Repository.revokeConnection id now).settle s

instance : Operational Operation Store := ⟨Operation.perform⟩

theorem apply_eq (op : Operation) (s : Store) : apply op s = op.perform s := rfl

abbrev Connections := Procedure Store Operation Failure

section Usecases

variable {α : Type}

def look (answer : Store → α) : Connections α := Procedure.query .read answer

def call (answer : Provider → Except Failure α) : Connections α :=
  look (fun s => answer s.provider) >>= Procedure.ofExcept

def clock : Connections ℕ := look (·.now)

def generateId : Connections Id := Procedure.query .generateId (·.nextId)

def commit (op : Operation) (batch : StoreBatch α) : Connections α :=
  Procedure.step op fun s => Procedure.ofExcept (batch.outcome s)

variable [Locale]

def requiredString (value : Option String) (field label : String) : Except Failure String :=
  match value.filter (· ≠ "") with
  | some text => .ok text
  | none => .error (badRequest (label ++ " is missing " ++ field ++ "."))

def scopeString (scope : Option String) : Option (List String) :=
  scope.map fun text => Text.sort (Text.split text)

def tokenExpiry (token : ProviderToken) (now : ℕ) : Option ℕ :=
  (token.expiresIn.filter (0 < ·)).map fun seconds => now + seconds * 1000

def invalidProviderConnectionAuthorizationDetails : Failure :=
  invalidAuthorizationDetails
    "Provider connection authorization details must identify the requested concrete resource contexts."

def assertProviderConnectionAuthorizationDetails
    (configuredTemplates requested granted : List AuthorizationDetail) : Except Failure Unit :=
  if requested.isEmpty then .ok ()
  else if granted.isEmpty || hasDuplicateAuthorizationDetails granted ||
      granted.any (fun detail => isTemplate configuredTemplates detail ||
        !matchesSomeTemplate configuredTemplates detail) ||
      requested.any (fun requirement =>
        !granted.any fun detail => authorizationDetailMatchesTemplate detail requirement) then
    .error invalidProviderConnectionAuthorizationDetails
  else .ok ()

def upsertProviderConnection (input : ProviderAccount) : Connections ProviderAccount := do
  let inserted ← commit (.insertProviderConnection input)
    (Repository.insertProviderConnection input)
  if inserted then return input
  let updated ← commit (.updateProviderConnection input) (Repository.updateProviderConnection input)
  orThrow updated (.error "Provider Connection uniqueness invariant was violated.")

def ensureProviderConnection (resource : ApiResource) (intent : ConnectionIntent)
    (profile : ProviderProfile) : Connections ProviderAccount := do
  let connectorId ← orThrow resource.connectorId
    (badRequest "API resource no longer has a Provider Connector.")
  let provider ← look fun s => s.connectorProviders.find? fun c => c.1 = connectorId
  let provider ← orThrow provider (badRequest "API resource no longer has a Provider Connector.")
  let claimed ← look (·.findActiveUserProviderConnectionByProviderSubject provider.2
    profile.externalSubject)
  require (claimed.all fun a => a.owner.userId = intent.owner.userId)
    (conflict "This Provider account is already connected to another Realmroot account.")
  let existing ← look (·.findProviderConnectionByOwnerConnector connectorId intent.owner)
  require (existing.all fun a => a.status ≠ .active ∨ a.externalSubject = profile.externalSubject)
    (conflict "Disconnect the current Provider account before connecting another account.")
  let id ←
    match existing with
    | some account => pure account.id
    | none => generateId
  upsertProviderConnection
    ⟨id, connectorId, intent.owner, profile.externalSubject, profile.displayName, .active⟩

/-- The credential that a completed intent writes: the next version of what was read. -/
def credentialInput (id authorizationId : Id) (tokens : Tokens) (details : List AuthorizationDetail)
    (intent : ConnectionIntent) (existing : Option Credential) (expiresAt : Option ℕ) :
    Credential where
  id := id
  authorizationId := authorizationId
  tokens := tokens
  grantedScopes := tokens.scope
  authorizationDetails := details
  clientGeneration := intent.clientGeneration
  credentialVersion := (existing.map (·.credentialVersion)).getD 0 + 1
  refreshClaimId := none
  refreshClaimExpiresAt := none
  status := .active
  credentialExpiresAt := expiresAt
  revokedAt := none

def detailTypes (details : List AuthorizationDetail) : List (Option Json) :=
  details.map (·.field "type")

def completeResourceConnectionIntent (state code : String) : Connections Unit := do
  let now ← clock
  let intent ← commit (.consumeConnectionIntent (sha256 state) now)
    (Repository.consumeConnectionIntent (sha256 state) now)
  let intent ← orThrow intent
    (badRequest "Resource connection state is invalid, expired, or already used.")
  call (·.connectorAuthorization intent.resourceId intent.clientGeneration)
  let _ ← call (·.clientSecret)
  let token ← call (·.codeExchange code)
  let accessToken ← Procedure.ofExcept
    (requiredString token.accessToken "access_token" "OAuth token response")
  let refreshToken ← Procedure.ofExcept
    (requiredString token.refreshToken "refresh_token" "OAuth token response")
  let profile ← call (·.profile accessToken)
  let details ← Procedure.ofExcept (match profile.authorizationDetails with
    | some details => .ok details
    | none => readAuthorizationDetails token.authorizationDetails
      (!intent.authorizationDetails.isEmpty) (detailTypes intent.authorizationDetails)
      "OAuth token response")
  let resource ← look (·.findResource intent.resourceId)
  let resource ← orThrow (resource.filter (·.enabled))
    (notFound "Enabled Resource Server was not found.")
  Procedure.ofExcept (assertProviderConnectionAuthorizationDetails resource.authorizationDetails
    intent.authorizationDetails details)
  let account ← ensureProviderConnection resource intent profile
  let existing ← look (·.findConnectionByProviderResource account.id intent.resourceId)
  let tokens : Tokens := ⟨accessToken, refreshToken, (scopeString token.scope).getD intent.scopes⟩
  match existing with
  | some connection =>
    let credential ← look (·.credentialOf connection.id)
    let id ←
      match credential with
      | some credential => pure credential.id
      | none => generateId
    let input := credentialInput id connection.id tokens details intent credential
      (tokenExpiry token now)
    let active ← look (·.activeResource connection.resourceId)
    require (active = true)
      (badRequest "The API resource was deleted while completing the connection.")
    commit (.upsertProviderCredential connection.id input)
      (Repository.upsertProviderCredential connection.id input)
  | none =>
    let id ← generateId
    let input := credentialInput id intent.id tokens details intent none (tokenExpiry token now)
    commit (.createResourceAuthorization
      ⟨intent.id, account.id, intent.resourceId, .active, none⟩ input)
      (Repository.createResourceAuthorization
        ⟨intent.id, account.id, intent.resourceId, .active, none⟩ input)

/-- What a refreshed token may be used for: the details must stay what they were. -/
def refreshedDetails (credential : Credential) (token : ProviderToken) : Except Failure Unit := do
  let details ←
    match token.authorizationDetails with
    | .absent => .ok credential.authorizationDetails
    | value =>
      readAuthorizationDetails value (!credential.authorizationDetails.isEmpty)
        (detailTypes credential.authorizationDetails) "OAuth refresh response"
  if exactAuthorizationDetails details credential.authorizationDetails then return ()
  else throw (unauthorized
    "Target authorization server changed authorization details during refresh.")

def exchangeRefreshToken (credential : Credential) (claimId : Id) : Connections Unit := do
  let answer ← Procedure.query (.refresh credential.tokens.refreshToken)
    fun s => s.provider.refresh credential.tokens.refreshToken
  let token ← Procedure.ofExcept answer
  let accessToken ← Procedure.ofExcept
    (requiredString token.accessToken "access_token" "OAuth refresh response")
  Procedure.ofExcept (refreshedDetails credential token)
  let refreshedAt ← clock
  let input : RefreshedTokens := {
    expectedVersion := credential.credentialVersion
    claimId := claimId
    tokens := ⟨accessToken, (token.refreshToken.filter (· ≠ "")).getD
      credential.tokens.refreshToken,
      (scopeString token.scope).getD credential.grantedScopes⟩
    credentialExpiresAt := tokenExpiry token refreshedAt }
  let updated ← commit (.completeProviderCredentialRefresh credential.id input)
    (Repository.completeProviderCredentialRefresh credential.id input)
  require (updated = true)
    (oauthError "temporarily_unavailable" "Provider credential refresh changed concurrently." 503)

def revokeProviderCredential (id : Id) (now : ℕ) : Connections Unit := do
  let authorizationId ← commit (.revokeProviderCredential id now)
    (Repository.revokeProviderCredential id now)
  match authorizationId with
  | some authorizationId =>
    commit (.revokeBareAuthorization authorizationId now)
      (Repository.revokeBareAuthorization authorizationId now)
  | none => return ()

/-- A refused refresh revokes the credential, any other failure gives the claim back. -/
def refreshFailed (credential : Credential) (claimId : Id) (error : Failure) :
    Connections Unit := do
  let now ← clock
  match error with
  | .oauth _ "invalid_grant" _ => revokeProviderCredential credential.id now
  | _ =>
    commit (.releaseProviderCredentialRefresh credential.id credential.credentialVersion claimId)
      (Repository.releaseProviderCredentialRefresh credential.id
        credential.credentialVersion claimId)
  throw error

/-- `refreshConnectionToken`, on the credential that is stored when it starts. -/
def refreshConnectionToken (credentialId : Id) : Connections Unit := do
  let found ← Procedure.query (.readCredential credentialId) (·.findCredential credentialId)
  let credential ← orThrow found (forbidden
    "No active provider credential covers the requested authority.")
  let now ← clock
  if credential.credentialExpiresAt.any fun t => decide (now + 30000 < t) then return ()
  let claimId ← generateId
  let now ← clock
  let claim : RefreshClaim :=
    ⟨credential.id, credential.credentialVersion, claimId, now, now + 15000⟩
  let claimed ← commit (.claimProviderCredentialRefresh claim)
    (Repository.claimProviderCredentialRefresh claim)
  require (claimed = true)
    (oauthError "temporarily_unavailable" "Provider credential refresh is already in progress." 503)
  let _ ← call (·.clientSecret)
  tryCatch (exchangeRefreshToken credential claimId) (refreshFailed credential claimId)

end Usecases

section Program

variable [Locale]

inductive Call where
  | createConnectionIntent (intent : ConnectionIntent)
  | completeResourceConnectionIntent (state code : String)
  | refreshConnectionToken (credentialId : Id)
  | revokeConnection (id : Id)
  | revokeProviderConnection (id ownerUserId : Id)
  | elapse (milliseconds : ℕ)
  | outside (provider : Provider)
  | administer (resources : List ApiResource) (connectorProviders : List (Id × String))

def Call.program : Call → Connections Unit
  | .createConnectionIntent intent => Procedure.query (.createConnectionIntent intent) fun _ => ()
  | .completeResourceConnectionIntent state code =>
    Credentials.completeResourceConnectionIntent state code
  | .refreshConnectionToken credentialId => Credentials.refreshConnectionToken credentialId
  | .revokeConnection id => do
    let now ← clock
    let active ← look (·.authorizations.any fun a => a.id == id && a.status == .active)
    if active then commit (.revokeConnection id now) (Repository.revokeConnection id now)
  | .revokeProviderConnection id ownerUserId => do
    let revoked ← commit (.revokeProviderConnection id ownerUserId)
      (Repository.revokeProviderConnection id ownerUserId)
    require (revoked = true) (badRequest "Provider Connection is already disconnected.")
  | .elapse milliseconds => Procedure.query (.elapse milliseconds) fun _ => ()
  | .outside provider => Procedure.query (.outside provider) fun _ => ()
  | .administer resources connectorProviders =>
    Procedure.query (.administer resources connectorProviders) fun _ => ()

structure Store.Fresh (s : Store) : Prop where
  authorizations : s.authorizations = []
  credentials : s.credentials = []

abbrev CredentialPool := Pool Call Store Operation Failure Unit

abbrev CredentialReachable : CredentialPool → Prop :=
  Reachable Call.program Store.Fresh (Unrestricted Call Store Operation Failure Unit)

end Program

namespace Sample

def token (text : String) : ProviderToken :=
  ⟨some text, some ("refresh-" ++ text), none, .absent, some 10⟩

/-- A provider that refuses the refresh token of the code `lost` and renews any other. -/
def provider : Provider where
  connectorAuthorization _ _ := .ok ()
  clientSecret := .ok "secret"
  codeExchange code := .ok (token code)
  profile _ := .ok ⟨"subject", "name", some []⟩
  refresh refreshToken :=
    if refreshToken = "refresh-lost" then .error (oauthError "invalid_grant" "Token was revoked.")
    else .ok (token ("new-" ++ refreshToken))

def repositories : ApiResource where
  id := "repositories"
  identifier := "repositories"
  resourceUrl := "https://repositories"
  authorizationModel := .external
  connectorId := some "c"
  authorizationDetails := []
  enabled := true
  ownerOrganizationId := "o"
  visibility := .publicResource
  scopeRegistry := none
  availableToAgents := true
  deletedAt := none

def intent (id : Id) : ConnectionIntent :=
  ⟨id, sha256 id, "repositories", .user "u", ["read"], [], 1, true, 1000⟩

/-- One user with two pending intents to connect one account. -/
def store : Store :=
  ⟨0, 0, provider, [repositories], [("c", "p")], [intent "i", intent "j"], [], [], []⟩

theorem store_fresh : store.Fresh := ⟨rfl, rfl⟩

/-- The credential of the first intent, written from the tokens of a code. -/
def connected (code : String) : List (Move Call) :=
  Move.alone 0 (.completeResourceConnectionIntent "i" code) 15

def reconnecting (index : ℕ) (code : String) : List (Move Call) :=
  Move.alone index (.completeResourceConnectionIntent "j" code) 15

def run [Locale] (moves : List (Move Call)) : Option CredentialPool :=
  (Pool.initial store).run Call.program (fun _ _ => true) moves

theorem reachable_of_run [Locale] {moves : List (Move Call)} {check : CredentialPool → Bool}
    (h : (run moves).any check = true) :
    ∃ pool : CredentialPool, CredentialReachable pool ∧ check pool = true :=
  Reachable.of_any (fun _ _ _ => trivial) (.initial store_fresh) h

end Sample

end FlareAuth.Credentials
