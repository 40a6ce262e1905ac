import FlareAuth.Concurrent.Batch
import FlareAuth.Concurrent.Pool
import FlareAuth.Connectors
import FlareAuth.ExchangeStore

/-!
# The client generations of a connector

A connection intent and a provider credential name the generation of the client
that they were authorized with. An extension of the registered scopes updates
the registration in place or replaces the client by the next generation, and an
update of the connector configures a client again.
-/

namespace FlareAuth.Connectors

open Concurrent Procedure Relational

structure RegistrationBody where
  clientId : Option String
  clientSecret : Option String
  registrationClientUri : Option String
  registrationAccessToken : Option String
  scope : Option String
  /-- `registrationMetadataMatches` of the body and the request for it. -/
  metadataMatches : Bool

/-- The answer of a registration's management endpoint. -/
inductive Managed where
  | ok (body : RegistrationBody)
  | status (code : ℕ)

/-- A client at a generation of a connector, as a request to its server names it. -/
structure ResolvedClient where
  clientGeneration : ℕ
  clientId : String
  clientSecret : String
  deriving DecidableEq

structure Servers extends AuthorizationServers where
  readClient : (uri accessToken : String) → Except Failure Managed
  updateClient : (uri accessToken clientId : String) → (scopes : List String) →
    Except Failure Managed
  /-- The pushed authorization request, where there is one. -/
  pushAuthorization : ResolvedClient → Except Failure Unit
  exchangeCode : ResolvedClient → (code : String) → Except Failure String
  exchangeRefreshToken : ResolvedClient → (refreshToken : String) → Except Failure String

structure ConnectionIntent where
  id : Id
  state : Digest String
  resourceId : Id
  owner : Owner
  scopes : List String
  clientGeneration : ℕ
  pending : Bool
  expiresAt : ℕ
  deriving DecidableEq

/-- What is kept here of an intent. -/
def ConnectionIntent.ofExchange (i : TokenExchange.ConnectionIntent) : ConnectionIntent where
  id := i.id
  state := i.stateHash
  resourceId := i.resourceId
  owner := i.owner
  scopes := i.scopes
  clientGeneration := i.clientGeneration
  pending := i.status == .pending
  expiresAt := i.expiresAt

structure Credential where
  id : Id
  resourceId : Id
  owner : Owner
  grantedScopes : List String
  clientGeneration : ℕ
  credentialVersion : ℕ
  refreshToken : String
  active : Bool
  deriving DecidableEq

structure Store where
  now : ℕ
  generated : ℕ
  servers : Servers
  resources : List ApiResource
  connectors : List Connector
  intents : List ConnectionIntent
  credentials : List Credential

namespace Store

def nextId (s : Store) : Id := "id-" ++ toString s.generated

def findResource (s : Store) (id : Id) : Option ApiResource :=
  s.resources.find? fun r => r.id = id ∧ r.deletedAt = none

def findConnector (s : Store) (id : Id) : Option Connector := lookup Connector.id id s.connectors

def findCredential (s : Store) (id : Id) : Option Credential :=
  lookup Credential.id id s.credentials

def credentialOf (s : Store) (resourceId : Id) (owner : Owner) : Option Credential :=
  s.credentials.find? fun c => c.resourceId = resourceId ∧ c.owner = owner

def setConnectors (s : Store) (p : Connector → Bool) (f : Connector → Connector) : Store :=
  { s with connectors := updateWhere p f s.connectors }

end Store

end FlareAuth.Connectors

namespace FlareAuth.Connector

open Connectors

/-- What a rotation retires: the client of the row that was read. -/
def retired (c : Connector) (clientId clientSecret : String) : ClientGeneration where
  generation := c.resourceClientGeneration
  clientId := clientId
  clientSecret := clientSecret
  registrationClientUri := c.resourceRegistrationClientUri
  registrationAccessToken := c.resourceRegistrationAccessToken
  registeredScopes := c.resourceRegisteredScopes.getD
    ["openid", "profile", "email", "offline_access"]

/-- The columns of `resourceProviderMetadata`, and the time of the update. -/
def withMetadata (c : Connector) (metadata : OidcMetadata) (now : ℕ) : Connector :=
  { c with
    scopesSupported := metadata.scopesSupported
    authorizationDetailsCatalogEndpoint := metadata.authorizationDetailsCatalogEndpoint
    authorizationDetailsCatalogScope := metadata.authorizationDetailsCatalogScope
    updatedAt := now }

/-- The update of a registration in place leaves the identifier of the client and its generation. -/
def reregistered (client : OAuthClient) (metadata : OidcMetadata) (now : ℕ) (c : Connector) :
    Connector :=
  { c.withMetadata metadata now with
    resourceClientSecret := some client.clientSecret
    resourceRegistrationClientUri := client.registrationClientUri
    resourceRegistrationAccessToken := client.registrationAccessToken
    resourceRegisteredScopes := client.registeredScopes }

def rotated (client : OAuthClient) (nextGeneration : ℕ) (retired : List ClientGeneration)
    (metadata : OidcMetadata) (now : ℕ) (c : Connector) : Connector :=
  { c.reregistered client metadata now with
    resourceClientId := some client.clientId
    resourceClientGeneration := nextGeneration
    resourceRetiredClientGenerations := retired }

def withEndpoints (metadata : OidcMetadata) (now : ℕ) (c : Connector) : Connector :=
  { c.withMetadata metadata now with
    resourceAuthorizationEndpoint := some metadata.authorizationEndpoint
    resourceTokenEndpoint := some metadata.tokenEndpoint
    resourceUserInfoEndpoint := some metadata.userInfoEndpoint
    resourceJwksEndpoint := some metadata.jwksEndpoint
    resourceRegistrationEndpoint := metadata.registrationEndpoint
    resourceRevocationEndpoint := metadata.revocationEndpoint }

/-- A retired client of the generation comes before the present one. -/
def clientAt (c : Connector) (generation : ℕ) : Option ResolvedClient :=
  match c.resourceRetiredClientGenerations.find? fun r => r.generation = generation with
  | some r => some ⟨generation, r.clientId, r.clientSecret⟩
  | none =>
    match c.resourceClientId, c.resourceClientSecret with
    | some clientId, some clientSecret => some ⟨generation, clientId, clientSecret⟩
    | _, _ => none

def activeClient (c : Connector) (clientGeneration : Option ℕ) : Option ResolvedClient :=
  ((resolveExternalAuthorization (some c) clientGeneration).filter (·.active)).bind
    fun authorization => c.clientAt authorization.clientGeneration

end FlareAuth.Connector

namespace FlareAuth.Connectors

open Concurrent Procedure Relational

abbrev StoreBatch := Batch Store Failure

namespace Repository

def update (id : Id) (f : Connector → Connector) : StoreBatch (Option Connector) := fun s =>
  .ok ((s.findConnector id).map f, s.setConnectors (fun c => c.id == id) f)

/-- Compares the generation, and nothing else of the row. -/
def rotateResourceClientGeneration (id : Id) (expectedGeneration : ℕ) (f : Connector → Connector) :
    StoreBatch Bool := fun s =>
  let selects := fun c : Connector => c.id == id && c.resourceClientGeneration == expectedGeneration
  .ok (s.connectors.any selects, s.setConnectors selects f)

def consumeConnectionIntent (state : Digest String) (now : ℕ) :
    StoreBatch (Option ConnectionIntent) := fun s =>
  let selects := fun i : ConnectionIntent =>
    i.state == state && i.pending && decide (now < i.expiresAt)
  .ok ((s.intents.find? selects).map ({ · with pending := false }),
    { s with intents := updateWhere selects ({ · with pending := false }) s.intents })

/-- The intents of both models lose the same one to a state, and both answer with it. -/
theorem consumeConnectionIntent_ofExchange {site : TokenExchange.Site} {s : Store}
    (h : s.intents = site.connectionIntents.map .ofExchange) (state : Digest String) (now : ℕ) :
    ∃ intent site',
      TokenExchange.Repository.consumeConnectionIntent state now site = .ok (intent, site') ∧
        consumeConnectionIntent state now s = .ok (intent.map .ofExchange,
          { s with intents := site'.connectionIntents.map .ofExchange }) := by
  refine ⟨_, _, rfl, ?_⟩
  simp only [consumeConnectionIntent, h, List.find?_map, Option.map_map]
  refine congrArg Except.ok (Prod.ext rfl (congrArg (fun intents => { s with intents }) ?_))
  exact updateWhere_map ConnectionIntent.ofExchange (fun _ => rfl) fun _ => rfl

/-- The credential of the owner at the resource, replaced or inserted. -/
def upsertProviderCredential (input : Credential) : StoreBatch Unit := fun s =>
  let selects := fun c : Credential => c.resourceId == input.resourceId && c.owner == input.owner
  if s.credentials.any selects then
    .ok ((), { s with
      credentials := updateWhere selects (fun c => { input with id := c.id }) s.credentials })
  else .ok ((), { s with credentials := s.credentials ++ [input] })

def completeProviderCredentialRefresh (id : Id) (expectedVersion : ℕ) (refreshToken : String) :
    StoreBatch Bool := fun s =>
  let selects := fun c : Credential =>
    c.id == id && c.active && c.credentialVersion == expectedVersion
  .ok (s.credentials.any selects, { s with credentials := updateWhere selects (fun c => { c with
    refreshToken := refreshToken, credentialVersion := expectedVersion + 1 }) s.credentials })

def revokeResourceAuthorizationsByConnector (connectorId : Id) : StoreBatch Unit := fun s =>
  let selects := fun c : Credential =>
    s.resources.any fun r => r.id == c.resourceId && r.connectorId == some connectorId
  .ok ((), { s with credentials := updateWhere selects ({ · with active := false }) s.credentials })

end Repository

inductive Operation where
  | read
  | generateId
  | elapse (milliseconds : ℕ)
  | outside (servers : Servers)
  | configureConnector (id : Id) (input : UpdateConnector) (oidc : Option OidcConnector) (now : ℕ)
  | revokeAuthorizations (connectorId : Id)
  | refreshMetadata (id : Id) (metadata : OidcMetadata) (now : ℕ)
  | updateClient (id : Id) (client : OAuthClient) (metadata : OidcMetadata) (now : ℕ)
  | rotateClient (id : Id) (expectedGeneration : ℕ) (retiredBefore : List ClientGeneration)
      (retired : ClientGeneration) (client : OAuthClient) (metadata : OidcMetadata) (now : ℕ)
  | authorize (resourceId : Id) (client : ResolvedClient)
  | createConnectionIntent (intent : ConnectionIntent)
  | consumeConnectionIntent (state : Digest String) (now : ℕ)
  | exchangeCode (intent : ConnectionIntent) (client : ResolvedClient) (code : String)
  | storeCredential (credential : Credential)
  | exchangeRefreshToken (credential : Credential) (client : ResolvedClient)
  | completeRefresh (id : Id) (expectedVersion : ℕ) (refreshToken : String)

def Operation.perform : Operation → Store → Store
  | .read, s | .authorize _ _, s | .exchangeCode _ _ _, s | .exchangeRefreshToken _ _, s => s
  | .generateId, s => { s with generated := s.generated + 1 }
  | .elapse milliseconds, s => { s with now := s.now + milliseconds }
  | .outside servers, s => { s with servers := servers }
  | .configureConnector id input oidc now, s =>
    (Repository.update id (·.patched input oidc now)).settle s
  | .revokeAuthorizations connectorId, s =>
    (Repository.revokeResourceAuthorizationsByConnector connectorId).settle s
  | .refreshMetadata id metadata now, s =>
    (Repository.update id (·.withEndpoints metadata now)).settle s
  | .updateClient id client metadata now, s =>
    (Repository.update id (·.reregistered client metadata now)).settle s
  | .rotateClient id expectedGeneration retiredBefore retired client metadata now, s =>
    (Repository.rotateResourceClientGeneration id expectedGeneration
      (·.rotated client (expectedGeneration + 1) (retiredBefore ++ [retired]) metadata now)
        ).settle s
  | .createConnectionIntent intent, s => { s with intents := s.intents ++ [intent] }
  | .consumeConnectionIntent state now, s => (Repository.consumeConnectionIntent state now).settle s
  | .storeCredential credential, s => (Repository.upsertProviderCredential credential).settle s
  | .completeRefresh id expectedVersion refreshToken, s =>
    (Repository.completeProviderCredentialRefresh id expectedVersion refreshToken).settle s

instance : Operational Operation Store := ⟨Operation.perform⟩

theorem apply_eq (op : Operation) (s : Store) : apply op s = op.perform s := rfl

abbrev Connecting := Procedure Store Operation Failure

section Usecases

variable {α : Type}

def look (answer : Store → α) : Connecting α := Procedure.query .read answer

def call (answer : Servers → Except Failure α) : Connecting α :=
  look (fun s => answer s.servers) >>= Procedure.ofExcept

def commit (op : Operation) (batch : StoreBatch α) : Connecting α :=
  Procedure.step op fun s => Procedure.ofExcept (batch.outcome s)

def registrationLabel : String := "Dynamic OIDC client registration response"

def requiredClientId (body : RegistrationBody) : Except Failure String :=
  match present body.clientId with
  | some clientId => .ok clientId
  | none => .error (badRequest (registrationLabel ++ " requires client_id."))

def scopeString (scope : String) : Option (List String) :=
  let scopes := Text.split scope
  if scopes.isEmpty then none else some (Text.sort (Text.unique scopes))

/-- `registrationResponse` to an update: what the body leaves out is as it was. -/
def registrationResponse (body : RegistrationBody) (requestedScopes : List String)
    (clientSecret uri accessToken : String) : Except Failure OAuthClient := do
  let returnedScopes := body.scope.bind scopeString
  if returnedScopes.any fun scopes => requestedScopes.any (!scopes.contains ·) then
    throw (badRequest "Dynamic OIDC client registration omitted a requested scope.")
  let clientId ← requiredClientId body
  return {
    clientId := clientId
    clientSecret := (present body.clientSecret).getD clientSecret
    registrationClientUri := some (body.registrationClientUri.getD uri)
    registrationAccessToken := some (body.registrationAccessToken.getD accessToken)
    registeredScopes := some (returnedScopes.getD requestedScopes) }

def managementUnsupported (code : ℕ) : Bool := [401, 404, 405, 501].contains code

def clientIdentifierChanged : Failure :=
  badRequest "Dynamic OIDC registration management changed the client identifier."

def registersScopes (registered : Option (List String)) (requiredScopes : List String) : Bool :=
  requiredScopes.all (registered.getD []).contains

/-- The registered scopes cover the required ones, and the server still says so where it can be
asked. -/
def registrationCurrent (connector : Connector) (clientId : String) (requiredScopes : List String) :
    Connecting Bool :=
  if registersScopes connector.resourceRegisteredScopes requiredScopes then
    match present connector.resourceRegistrationClientUri,
        present connector.resourceRegistrationAccessToken with
    | some uri, some accessToken => do
      match ← call (·.readClient uri accessToken) with
      | .ok body =>
        let registered ← Procedure.ofExcept (requiredClientId body)
        require (registered = clientId) clientIdentifierChanged
        return ((body.scope.bind scopeString).any fun scopes =>
          requiredScopes.all scopes.contains) &&
          body.metadataMatches
      | .status code =>
        require (managementUnsupported code = true)
          (badRequest "Dynamic OIDC client registration read failed.")
        return false
    | _, _ => return true
  else return false

/-- Updates the registration at its server and writes what it answers; `false` where the server
cannot be asked. -/
def updateRegistration (connector : Connector) (clientId clientSecret : String)
    (metadata : OidcMetadata) : Connecting Bool :=
  match present connector.resourceRegistrationClientUri,
      present connector.resourceRegistrationAccessToken with
  | some uri, some accessToken => do
    match ← call (·.updateClient uri accessToken clientId metadata.registrationScopes) with
    | .ok body =>
      let updated ← Procedure.ofExcept
        (registrationResponse body metadata.registrationScopes clientSecret uri accessToken)
      require (updated.clientId = clientId) clientIdentifierChanged
      let now ← look (·.now)
      let _ ← commit (.updateClient connector.id updated metadata now)
        (Repository.update connector.id (·.reregistered updated metadata now))
      return true
    | .status code =>
      require (managementUnsupported code = true)
        (badRequest "Dynamic OIDC client registration update failed.")
      return false
  | _, _ => return false

/-- Registers another client as the next generation, if the row still has the one that was read. -/
def replaceRegistration (connector : Connector) (endpoint clientId clientSecret : String)
    (metadata : OidcMetadata) (requiredScopes : List String) : Connecting ℕ := do
  let generation := connector.resourceClientGeneration
  let client ← call (·.registerClient endpoint metadata.registrationScopes)
  let retiredBefore := connector.resourceRetiredClientGenerations
  let retired := connector.retired clientId clientSecret
  let now ← look (·.now)
  let rotated ← commit
    (.rotateClient connector.id generation retiredBefore retired client metadata now)
    (Repository.rotateResourceClientGeneration connector.id generation
      (·.rotated client (generation + 1) (retiredBefore ++ [retired]) metadata now))
  if rotated then return generation + 1
  else do
    let winner ← look (·.findConnector connector.id)
    let winner ← orThrow (winner.filter fun c => decide (generation < c.resourceClientGeneration) &&
        registersScopes c.resourceRegisteredScopes requiredScopes)
      (badRequest
        "Dynamic OIDC client registration changed concurrently; retry the authorization request.")
    return winner.resourceClientGeneration

def ensureDynamicConnectorScopes (connectorId : Id) (requiredScopes : List String) :
    Connecting ℕ := do
  let connector ← look (·.findConnector connectorId)
  let connector ← orThrow connector (notFound "Connector not found.")
  let generation := connector.resourceClientGeneration
  if connector.resourceRegistrationMode ≠ some "dynamic" then return generation
  else
    match present connector.resourceIssuer, present connector.resourceRegistrationEndpoint,
        present connector.resourceClientId, present connector.resourceClientSecret with
    | some issuer, some endpoint, some clientId, some clientSecret => do
      let current ← registrationCurrent connector clientId requiredScopes
      if current then return generation
      else do
        let metadata ← call (·.discover issuer)
        require (requiredScopes.all metadata.registrationScopes.contains = true)
          (badRequest "The authorization server does not advertise every requested scope.")
        let updated ← updateRegistration connector clientId clientSecret metadata
        if updated then return generation
        else replaceRegistration connector endpoint clientId clientSecret metadata requiredScopes
    | _, _, _, _ => throw (badRequest "Dynamic resource authorization client is incomplete.")

def refreshDynamicConnectorMetadata (connectorId : Id) : Connecting Unit := do
  let connector ← look (·.findConnector connectorId)
  let connector ← orThrow connector (notFound "Connector not found.")
  if connector.resourceRegistrationMode ≠ some "dynamic" then return ()
  else do
    let issuer ← orThrow (present connector.resourceIssuer)
      (badRequest "Dynamic resource authorization client is incomplete.")
    let metadata ← call (·.discover issuer)
    let now ← look (·.now)
    let _ ← commit (.refreshMetadata connectorId metadata now)
      (Repository.update connectorId (·.withEndpoints metadata now))
    return ()

def updateConnector (driver : ConnectorDriver) (id : Id) (input : UpdateConnector) :
    Connecting Unit := do
  let current ← look (·.findConnector id)
  let current ← orThrow current (notFound "Connector not found.")
  Procedure.ofExcept
    (assertResourceAuthorizationCapability driver current input.resourceAuthorization)
  let oidc ← call fun servers =>
    prepareResourceAuthorization servers.toAuthorizationServers current input.resourceAuthorization
  let now ← look (·.now)
  Procedure.ofExcept ((current.patched input oidc now).assertComplete driver.authenticationComplete)
  let updated ← commit (.configureConnector id input oidc now)
    (Repository.update id (·.patched input oidc now))
  let updated ← orThrow updated (notFound "Connector not found.")
  if input.resourceAuthorization.isSome then
    commit (.revokeAuthorizations id) (Repository.revokeResourceAuthorizationsByConnector id)
  Procedure.ofExcept (updated.assertComplete driver.authenticationComplete)

/-- The client of the resource's connector at a generation, or its present one. -/
def requireActiveConnectorAuthorization (resourceId : Id) (clientGeneration : Option ℕ) :
    Connecting ResolvedClient := do
  let resource ← look (·.findResource resourceId)
  let resource ← orThrow
    (resource.filter fun r => decide (r.authorizationModel = .external)) activeAuthorizationMissing
  let connectorId ← orThrow resource.connectorId activeAuthorizationMissing
  let connector ← look (·.findConnector connectorId)
  orThrow (connector.bind (·.activeClient clientGeneration)) activeAuthorizationMissing

def requireConnector (resourceId : Id) : Connecting Id := do
  let resource ← look (·.findResource resourceId)
  let resource ← orThrow (resource.filter (·.enabled))
    (notFound "Enabled Resource Server was not found.")
  orThrow resource.connectorId (.error "External authorization requires a Provider Connector.")

structure IntentRequest where
  state : String
  resourceId : Id
  owner : Owner
  scopes : List String

def createResourceConnectionIntent (request : IntentRequest) : Connecting Unit := do
  let connectorId ← requireConnector request.resourceId
  let _ ← requireActiveConnectorAuthorization request.resourceId none
  let clientGeneration ← ensureDynamicConnectorScopes connectorId request.scopes
  let client ← requireActiveConnectorAuthorization request.resourceId (some clientGeneration)
  let id ← Procedure.query .generateId (·.nextId)
  let now ← look (·.now)
  let pushed ← Procedure.query (.authorize request.resourceId client)
    (·.servers.pushAuthorization client)
  Procedure.ofExcept pushed
  let intent : ConnectionIntent := {
    id := id
    state := sha256 request.state
    resourceId := request.resourceId
    owner := request.owner
    scopes := request.scopes
    clientGeneration := clientGeneration
    pending := true
    expiresAt := now + 600000 }
  Procedure.query (.createConnectionIntent intent) fun _ => ()

def completeResourceConnectionIntent (state code : String) : Connecting Unit := do
  let now ← look (·.now)
  let intent ← commit (.consumeConnectionIntent (sha256 state) now)
    (Repository.consumeConnectionIntent (sha256 state) now)
  let intent ← orThrow intent
    (badRequest "Resource connection state is invalid, expired, or already used.")
  let client ← requireActiveConnectorAuthorization intent.resourceId (some intent.clientGeneration)
  let answer ← Procedure.query (.exchangeCode intent client code)
    (·.servers.exchangeCode client code)
  let refreshToken ← Procedure.ofExcept answer
  let existing ← look (·.credentialOf intent.resourceId intent.owner)
  let id ← Procedure.query .generateId (·.nextId)
  let credential : Credential := {
    id := id
    resourceId := intent.resourceId
    owner := intent.owner
    grantedScopes := intent.scopes
    clientGeneration := intent.clientGeneration
    credentialVersion := (existing.map (·.credentialVersion)).getD 0 + 1
    refreshToken := refreshToken
    active := true }
  commit (.storeCredential credential) (Repository.upsertProviderCredential credential)

def requireCredential (credentialId : Id) : Connecting Credential := do
  let credential ← look (·.findCredential credentialId)
  orThrow (credential.filter (·.active))
    (forbidden "No active provider credential covers the requested authority.")

/-- The exchange of a credential's refresh token, with the client of its generation. The claim of a
refresh is the credentials' own. -/
def refreshConnectionToken (credential : Credential) (client : ResolvedClient) :
    Connecting Unit := do
  let answer ← Procedure.query (.exchangeRefreshToken credential client)
    (·.servers.exchangeRefreshToken client credential.refreshToken)
  let refreshToken ← Procedure.ofExcept answer
  let updated ← commit (.completeRefresh credential.id credential.credentialVersion refreshToken)
    (Repository.completeProviderCredentialRefresh credential.id credential.credentialVersion
      refreshToken)
  require (updated = true)
    (oauthError "temporarily_unavailable" "Provider credential refresh changed concurrently." 503)

/-- The provider's part of issuing a token: the registration must cover the granted scopes without a
rotation. -/
def issueProviderToken (credentialId : Id) : Connecting Unit := do
  let credential ← requireCredential credentialId
  let connectorId ← requireConnector credential.resourceId
  let connector ← look (·.findConnector connectorId)
  if (connector.map (·.resourceClientGeneration)).getD 1 = credential.clientGeneration then
    let active ← ensureDynamicConnectorScopes connectorId credential.grantedScopes
    require (active = credential.clientGeneration)
      (forbidden "The connected account must be reauthorized after OAuth client rotation.")
  let client ← requireActiveConnectorAuthorization credential.resourceId
    (some credential.clientGeneration)
  refreshConnectionToken credential client

def readResourceCatalog (credentialId : Id) : Connecting Unit := do
  let credential ← requireCredential credentialId
  let client ← requireActiveConnectorAuthorization credential.resourceId
    (some credential.clientGeneration)
  refreshConnectionToken credential client

end Usecases

inductive Call where
  | updateConnector (driver : ConnectorDriver) (id : Id) (input : UpdateConnector)
  | refreshDynamicConnectorMetadata (id : Id)
  | createResourceConnectionIntent (request : IntentRequest)
  | completeResourceConnectionIntent (state code : String)
  | issueProviderToken (credentialId : Id)
  | readResourceCatalog (credentialId : Id)
  | elapse (milliseconds : ℕ)
  | outside (servers : Servers)

def Call.program : Call → Connecting Unit
  | .updateConnector driver id input => Connectors.updateConnector driver id input
  | .refreshDynamicConnectorMetadata id => Connectors.refreshDynamicConnectorMetadata id
  | .createResourceConnectionIntent request => Connectors.createResourceConnectionIntent request
  | .completeResourceConnectionIntent state code =>
    Connectors.completeResourceConnectionIntent state code
  | .issueProviderToken credentialId => Connectors.issueProviderToken credentialId
  | .readResourceCatalog credentialId => Connectors.readResourceCatalog credentialId
  | .elapse milliseconds => Procedure.query (.elapse milliseconds) fun _ => ()
  | .outside servers => Procedure.query (.outside servers) fun _ => ()

end FlareAuth.Connectors
