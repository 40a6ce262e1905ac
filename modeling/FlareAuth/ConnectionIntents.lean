import FlareAuth.ExchangeStore
import FlareAuth.AccessGrant

/-!
# Connection intents

A user starts the connection of an account at an external Resource Server, and
the provider's callback consumes the pending intent. What the provider answers
is carried by the call; the credentials and the connection which a completion
writes belong to the directory.
-/

namespace FlareAuth.TokenExchange

open Concurrent Procedure Access

structure CreateResourceConnectionIntent where
  organizationId : Option Id
  scopes : List String
  authorizationDetails : Option (List AuthorizationDetail)
  returnTo : Option String
  /-- The check of the supported detail types and the pushed authorization request. -/
  provider : Except Failure Unit

def intentOwner (input : CreateResourceConnectionIntent) (actorUserId : Id) : Owner :=
  input.organizationId.elim (.user actorUserId) .organization

def requireConnectionOwnerControl (organizationId : Option Id) (actorUserId : Id) : Access Unit :=
  forEach organizationId.toList fun organizationId => do
    let manages ← organizationUserHasScope organizationId actorUserId "agents:write"
    require manages (forbidden "Organization credential manager access is required.")

/-- `normalizeScopes` of the generic driver: the scopes of an identity join those of a request. -/
def driverScopes (connector : Connector) (scopes : List String) : List String :=
  let identityScopes := if connector.scopesSupported.contains "profile" then
    ["openid", "offline_access", "profile"] else ["openid", "offline_access"]
  Text.sort (Text.unique (scopes ++ identityScopes))

/-- The external resource of an intent, with its connector. -/
def requireConnectableResource (resourceId : Id) : Access (ApiResource × Id) := do
  let candidate ← look (·.findResource resourceId)
  let candidate ← orThrow candidate (notFound "External API resource was not found.")
  require candidate.enabled (notFound "Enabled external API resource was not found.")
  let resource ← requireEnabledResource resourceId
  require resource.requiresAccountConnection
    (badRequest "Realmroot-issued access does not use account connections.")
  let connectorId ← orThrow resource.connectorId
    (.error "External authorization requires a Provider Connector.")
  return (resource, connectorId)

/-- The scopes and the client generation that the authorization is asked for. -/
def prepareIntent (resource : ApiResource) (connectorId : Id)
    (input : CreateResourceConnectionIntent) : Access (List String × ℕ) := do
  Procedure.ofExcept (validateRequestedScopes resource.declaredScopes input.scopes)
  let current ← findExternalAuthorization resource.id none
  let current ← orThrow (current.filter (·.active)) activeAuthorizationMissing
  let connector ← look (·.findConnector connectorId)
  let connector ← orThrow (connector.filter fun c => c.endpoints.isSome)
    (badRequest "Provider Connector does not support resource authorization.")
  let scopes := driverScopes connector
    (input.scopes ++ (present current.authorizationDetailsCatalogScope).toList)
  let clientGeneration ← call fun w => w.connectorGeneration connectorId scopes
  let _ ← requireActiveConnectorAuthorization resource.id clientGeneration
  Procedure.ofExcept input.provider
  return (scopes, clientGeneration)

def createResourceConnectionIntent (resourceId : Id) (input : CreateResourceConnectionIntent)
    (actorUserId : Id) : Exchange ConnectionIntent := do
  let (resource, connectorId) ← onAccess (requireConnectableResource resourceId)
  onAccess (requireConnectionOwnerControl input.organizationId actorUserId)
  let (scopes, clientGeneration) ← onAccess (prepareIntent resource connectorId input)
  let id ← onAccess generateId
  let state ← onAccess generateId
  let now ← onAccess clock
  let intent : ConnectionIntent := {
    id := id
    stateHash := sha256 state
    resourceId := resourceId
    owner := intentOwner input actorUserId
    initiatedByUserId := actorUserId
    scopes := scopes
    authorizationDetails := input.authorizationDetails.getD resource.authorizationDetails
    clientGeneration := clientGeneration
    returnTo := input.returnTo.getD "account-center"
    status := .pending
    expiresAt := now + 10 * 60 * 1000
    completedAt := none }
  let created ← commit (.createConnectionIntent intent) (Repository.createConnectionIntent intent)
  require created (notFound "Enabled external API resource was not found.")
  return intent

/-- The consumption with which the completion and the failure of an intent begin. -/
def consumeResourceConnectionIntent (state : String) : Exchange ConnectionIntent := do
  let now ← onAccess clock
  let intent ← commit (.consumeConnectionIntent (sha256 state) now)
    (Repository.consumeConnectionIntent (sha256 state) now)
  orThrow intent (badRequest "Resource connection state is invalid, expired, or already used.")

def failResourceConnectionIntent (state : String) : Exchange String := do
  let intent ← consumeResourceConnectionIntent state
  return intent.returnTo

/-- `completeResourceConnectionIntent`, up to what it writes to the directory. -/
def completeResourceConnectionIntent (state : String) (provider : Except Failure Unit) :
    Exchange String := do
  let intent ← consumeResourceConnectionIntent state
  let _ ← onAccess
    (requireActiveConnectorAuthorization intent.resourceId intent.clientGeneration)
  Procedure.ofExcept provider
  let _ ← onAccess (requireEnabledResource intent.resourceId)
  return intent.returnTo

end FlareAuth.TokenExchange
