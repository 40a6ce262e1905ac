import FlareAuth.ResourceScopes

/-!
# Account connections and their authorization servers

How a connector becomes the authorization of an external resource, how the
catalog of authorization details is read, and what a connection permits. A
provider's answers, and the credentials and metadata which they refresh, come
from outside; the tables they are written to belong to administration.
-/

namespace FlareAuth

open Concurrent Procedure Access

structure ResolvedExternalAuthorization where
  connectorId : Id
  tokenEndpoint : String
  revocationEndpoint : String
  authorizationDetailsCatalogEndpoint : Option String
  authorizationDetailsCatalogScope : Option String
  clientGeneration : ℕ
  active : Bool

/-- A column that is present and not empty. -/
def present (column : Option String) : Option String := column.filter (· ≠ "")

/-- `resourceOAuthDriver`, which gives the endpoints of the tokens and of their revocation. -/
def Connector.endpoints (c : Connector) : Option (String × String) := do
  guard c.resourceAuthorizationEnabled
  let _ ← present c.resourceAuthorizationEndpoint
  let token ← present c.resourceTokenEndpoint
  let _ ← present c.resourceUserInfoEndpoint
  let revocation ← present c.resourceRevocationEndpoint
  return (token, revocation)

def resolveExternalAuthorization (connector : Option Connector) (clientGeneration : Option ℕ) :
    Option ResolvedExternalAuthorization := do
  let c ← connector
  let (tokenEndpoint, revocationEndpoint) ← c.endpoints
  let _ ← present c.resourceClientId
  let _ ← present c.resourceClientSecret
  let _ ← present c.resourceIssuer
  let _ ← present c.resourceJwksEndpoint
  let requested := clientGeneration.getD c.resourceClientGeneration
  guard (requested = c.resourceClientGeneration ∨
    c.resourceRetiredClientGenerations.any fun g => g.generation = requested)
  return {
    connectorId := c.id
    tokenEndpoint := tokenEndpoint
    revocationEndpoint := revocationEndpoint
    authorizationDetailsCatalogEndpoint := c.authorizationDetailsCatalogEndpoint
    authorizationDetailsCatalogScope := c.authorizationDetailsCatalogScope
    clientGeneration := requested
    active := c.enabled && c.resourceAuthorizationEnabled }

def activeConnectorAuthorizationForResource (resource : ApiResource)
    (clientGeneration : Option ℕ) : Access (Option ResolvedExternalAuthorization) :=
  match resource.connectorId, resource.authorizationModel with
  | some connectorId, .external => do
    let connector ← look (·.findConnector connectorId)
    return resolveExternalAuthorization connector clientGeneration
  | _, _ => return none

def findExternalAuthorization (resourceId : Id) (clientGeneration : Option ℕ) :
    Access (Option ResolvedExternalAuthorization) := do
  match ← look (·.findResource resourceId) with
  | none => return none
  | some resource => activeConnectorAuthorizationForResource resource clientGeneration

def activeAuthorizationMissing : Failure :=
  notFound "Active external API resource authorization was not found."

def requireActiveConnectorAuthorization (resourceId : Id) (clientGeneration : ℕ) :
    Access ResolvedExternalAuthorization := do
  let authorization ← findExternalAuthorization resourceId (some clientGeneration)
  orThrow (authorization.filter (·.active)) activeAuthorizationMissing

def requireActiveExternalAuthorization (resourceId : Id) (clientGeneration : ℕ) :
    Access ResolvedExternalAuthorization := do
  let resource ← look (·.findResource resourceId)
  require (resource.any (·.authorizationModel = .external)) activeAuthorizationMissing
  requireActiveConnectorAuthorization resourceId clientGeneration

/-- None for a native resource. -/
def externalOAuthAuthorization (resource : ApiResource) (clientGeneration : ℕ) :
    Access (Option ResolvedExternalAuthorization) :=
  if resource.authorizationModel = .external then
    some <$> requireActiveExternalAuthorization resource.id clientGeneration
  else return none

def connectorOAuthAuthorization (resource : ApiResource) (clientGeneration : ℕ) :
    Access (Option ResolvedExternalAuthorization) :=
  if resource.connectorId.isSome ∧ resource.authorizationModel = .external then
    some <$> requireActiveConnectorAuthorization resource.id clientGeneration
  else return none

def ResourceConnection.providerCredentialGeneration (c : ResourceConnection) : ℕ :=
  (c.activeCredentials.head?.map (·.clientGeneration)).getD 1

section

variable [Locale]

def requireProviderCredential (connection : ResourceConnection) (scopes : List String)
    (authorizationDetails : List AuthorizationDetail) : Except Failure ProviderCredential :=
  let candidates := connection.activeCredentials.filter fun credential =>
    scopes.all credential.grantedScopes.contains &&
      isAuthorizationDetailsSubset authorizationDetails credential.authorizationDetails
  match candidates with
  | [credential] => .ok credential
  | [] => .error (forbidden "No active provider credential covers the requested authority.")
  | _ => .error (badRequest
      "Select an authorization context that identifies one provider credential.")

/-- `refreshConnectionToken`: the access token of a provider credential. -/
def refreshConnectionToken (credential : ProviderCredential) : Access String :=
  call (·.providerToken credential.id)

def checkCatalogPage (resource : ApiResource) (limit offset : ℕ) (catalog : CatalogPage) :
    Except Failure Unit :=
  let keys := catalog.items.map fun item => canonicalJson item.authorizationDetail
  if catalog.pageSize ≠ limit ∨ catalog.page ≠ offset / limit + 1 then
    .error (badGateway "Authorization detail catalog returned mismatched pagination metadata.")
  else if limit < catalog.items.length then
    .error (badGateway "Authorization detail catalog returned more items than requested.")
  else if catalog.totalItems < offset + catalog.items.length then
    .error (badGateway "Authorization detail catalog returned inconsistent pagination metadata.")
  else if (Text.unique keys).length ≠ keys.length then
    .error (badGateway "Authorization detail catalog contains duplicate details.")
  else if catalog.items.any fun item =>
      !matchesSomeTemplate resource.authorizationDetails item.authorizationDetail then
    .error (badGateway
      "Authorization detail catalog contains a detail outside the resource templates.")
  else .ok ()

def readAuthorizationDetailCatalog (resource : ApiResource) (connection : ResourceConnection)
    (endpoint scope : String) (limit offset : ℕ) : Access CatalogPage := do
  let credential ← Procedure.ofExcept (requireProviderCredential connection [] [])
  require (connection.grantedScopes.contains scope)
    (badRequest "Resource account must be reauthorized for the authorization detail catalog scope.")
  let _ ← refreshConnectionToken credential
  let catalog ← call (·.catalogPage endpoint (offset / limit + 1))
  Procedure.ofExcept (checkCatalogPage resource limit offset catalog)
  return catalog

/-- A page of the provider's catalog, or of the connection's own details. -/
def readResourceCatalog (resource : ApiResource) (connection : ResourceConnection)
    (limit offset : ℕ) : Access CatalogPage := do
  let authorization ← activeConnectorAuthorizationForResource resource
    (some connection.providerCredentialGeneration)
  match authorization.bind fun a => present a.authorizationDetailsCatalogEndpoint,
    authorization.bind fun a => present a.authorizationDetailsCatalogScope with
  | some endpoint, some scope =>
    readAuthorizationDetailCatalog resource connection endpoint scope limit offset
  | _, _ =>
    let details := connection.authorizationDetails
    return {
      items := ((details.drop offset).take limit).map fun detail => ⟨detail, none⟩
      page := offset / limit + 1
      pageSize := limit
      totalItems := details.length
      totalPages := (details.length + limit - 1) / limit }

/-- The items of the pages from one on, up to the last page or until enough of them are read. A
catalog is taken to stop answering after finitely many pages. -/
def catalogItemsFrom (resource : ApiResource) (connection : ResourceConnection)
    (enough : List CatalogItem → Bool) : ℕ → ℕ → List CatalogItem → Access (List CatalogItem)
  | 0, _, _ => fail (badGateway "Authorization detail catalog could not be reached.")
  | pages + 1, page, items => do
    let catalog ← readResourceCatalog resource connection 100 ((page - 1) * 100)
    if enough (items ++ catalog.items) || decide (catalog.totalPages ≤ catalog.page) then
      return items ++ catalog.items
    else catalogItemsFrom resource connection enough pages (page + 1) (items ++ catalog.items)

def catalogItems (resource : ApiResource) (connection : ResourceConnection)
    (enough : List CatalogItem → Bool) : Access (List CatalogItem) := do
  let pages ← ask .outside (·.world.catalogPages)
  catalogItemsFrom resource connection enough (pages + connection.authorizationDetails.length + 1)
    1 []

/-- The scopes that the account grants in every one of the details: none is known if the catalog
does not say, and none is granted if it does not list a detail. -/
def contextualScopes (requested : List String) (items : List CatalogItem) :
    Option (List String) :=
  let keyed := (items.map fun item => (canonicalJson item.authorizationDetail, item.grantedScopes)
    ).filter fun x => requested.contains x.1
  let keys := Text.unique (keyed.map (·.1))
  let granted := keys.map fun key =>
    ((keyed.reverse.find? fun x => x.1 = key).map (·.2)).getD none
  if keys.length ≠ requested.length then some []
  else if granted.any (·.isNone) then none
  else
    match granted.reduceOption with
    | [] => some []
    | first :: rest => some (Text.sort (first.filter fun scope => rest.all (·.contains scope)))

def accountScopesForAuthorizationDetails (resource : ApiResource) (connection : ResourceConnection)
    (authorizationDetails : List AuthorizationDetail) : Access (Option (List String)) := do
  let requested := Text.unique (authorizationDetails.map canonicalJson)
  let items ← catalogItems resource connection fun items =>
    requested.all (items.map fun item => canonicalJson item.authorizationDetail).contains
  return contextualScopes requested items

def requireControlledConnection (connectionId actorUserId : Id) : Access ResourceConnection := do
  let found ← look (·.findConnection connectionId)
  let connection ← orThrow found (notFound "Resource account connection was not found.")
  match connection.owner with
  | .user id =>
    require (id = actorUserId) (forbidden "Resource account controller access is required.")
    return connection
  | .organization id =>
    let allowed ← organizationUserHasScope id actorUserId "agents:write"
    require allowed (forbidden "Resource account controller access is required.")
    return connection

def assertConnectionInHomeSpace (connection : ResourceConnection) (ownerUserId : Id) :
    Except Failure Unit :=
  if connection.owner = .user ownerUserId then .ok ()
  else .error (forbidden "Resource account connection is outside the Agent home space.")

def assertAuthorizationDetailsSelection (resource : ApiResource)
    (connection : Option ResourceConnection) (authorizationDetails : List AuthorizationDetail) :
    Except Failure Unit :=
  if !resource.requiresAccountConnection then assertNativeAuthoritySelection authorizationDetails
  else if resource.authorizationDetails.isEmpty then
    if authorizationDetails.isEmpty then .ok ()
    else .error (invalidAuthorizationDetails
      "This external API resource does not use authorization details.")
  else if connection.all (·.authorizationDetails.isEmpty) then
    .error (invalidAuthorizationDetails
      "The resource account must be explicitly reauthorized for authorization details.")
  else if authorizationDetails.isEmpty then
    .error (invalidAuthorizationDetails
      "Select at least one concrete authorization detail entry.")
  else do
    assertConcreteAuthorizationDetails resource.authorizationDetails authorizationDetails "Selected"
    if hasDuplicateAuthorizationDetails authorizationDetails then
      .error (invalidAuthorizationDetails
        "Selected authorization details contain duplicate entries.")
    else .ok ()

end

end FlareAuth
