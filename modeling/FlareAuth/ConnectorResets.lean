import FlareAuth.AccessProgram
import FlareAuth.Concurrent.Command
import FlareAuth.Connectors

/-!
# The reset of a connector

An update of a connector's resource authorization writes the row, and then
sweeps what was authorized through the old one. The sweep detaches entitlements
from their connections under a unique index, and leaves them in force.
-/

namespace FlareAuth

open Concurrent Relational

abbrev Administration := Command Store Failure

namespace Repository

def updateConnector (id : Id) (f : Connector → Connector) : StoreBatch (Option Connector) :=
  fun s => .ok ((s.directory.findConnector id).map f, { s with directory := { s.directory with
    connectors := updateWhere (fun c => c.id == id) f s.directory.connectors } })

end Repository

namespace Directory

def onConnector (d : Directory) (connectorId resourceId : Id) : Bool :=
  d.resources.any fun r => r.id == resourceId && r.connectorId == some connectorId

def activeAuthorizationsByConnector (d : Directory) (connectorId : Id) : List Id :=
  (d.authorizations.filter fun a =>
    d.onConnector connectorId a.resourceId && a.status == .active).map (·.id)

end Directory

def sweepConnector (connectorId : Id) (now : ℕ) : Administration Unit := do
  let ids ← Command.read (·.directory.activeAuthorizationsByConnector connectorId)
  if ids.isEmpty then return ()
  else Command.atomic (Repository.revokeResourceAuthorizations ids now)

def updateConnector (servers : AuthorizationServers) (driver : ConnectorDriver) (id : Id)
    (input : UpdateConnector) : Administration Connector := do
  let current ← Command.read (·.directory.findConnector id)
  let current ← Command.orThrow current (notFound "Connector not found.")
  Command.ofExcept
    (assertResourceAuthorizationCapability driver current input.resourceAuthorization)
  let oidc ← Command.ofExcept
    (prepareResourceAuthorization servers current input.resourceAuthorization)
  let now ← Command.read (·.now)
  Command.ofExcept ((current.patched input oidc now).assertComplete driver.authenticationComplete)
  let updated ← Command.atomic (Repository.updateConnector id (·.patched input oidc now))
  let updated ← Command.orThrow updated (notFound "Connector not found.")
  if input.resourceAuthorization.isSome then sweepConnector id now
  Command.ofExcept (updated.assertComplete driver.authenticationComplete)
  return updated

section Update

variable {servers : AuthorizationServers} {driver : ConnectorDriver} {id : Id}
  {input : UpdateConnector} {s t : Store}

/-- No authority at the provider is left, and no Agent entitlement without a connection. -/
structure Store.NoAuthority (s : Store) (connectorId : Id) : Prop where
  credentials : ∀ a ∈ s.directory.authorizations,
    s.directory.onConnector connectorId a.resourceId = true → ∀ c ∈ s.directory.credentials,
      c.providerResourceAuthorizationId = a.id → c.status ≠ .active
  authorizations : ∀ a ∈ s.directory.authorizations,
    s.directory.onConnector connectorId a.resourceId = true → a.status ≠ .active
  entitlements : ∀ e ∈ s.entitlements, e.agentIdentityId.isSome = true →
    s.directory.onConnector connectorId e.resourceServerId = true → e.connectionId = none →
    e.active s.now = false

/-- What an update of the resource authorization must come to: it fails with the row as it was, or
returns with no authority left. -/
def Settled (id : Id) (s : Store) (result : Except Failure Connector × Store) : Prop :=
  match result with
  | (.error _, t) => t.directory.findConnector id = s.directory.findConnector id
  | (.ok _, t) => t.NoAuthority id

/-- The row that an update writes, if it gets that far. -/
def Store.accepts (s : Store) (servers : AuthorizationServers) (driver : ConnectorDriver) (id : Id)
    (input : UpdateConnector) : Except Failure (Connector × Option OidcConnector) := do
  let current ← (s.directory.findConnector id).elim (throw (notFound "Connector not found.")) pure
  assertResourceAuthorizationCapability driver current input.resourceAuthorization
  let oidc ← prepareResourceAuthorization servers current input.resourceAuthorization
  (current.patched input oidc s.now).assertComplete driver.authenticationComplete
  return (current, oidc)

/-- The entitlements after the sweep has detached them from the connections. -/
def detached (ids : List Id) (entitlements : List ScopeEntitlement) : List ScopeEntitlement :=
  updateWhere (fun e => e.connectionId.any ids.contains) (fun e => { e with connectionId := none })
    entitlements

def Store.swept (s : Store) (ids : List Id) : Store :=
  { s with
    requests := updateWhere (fun r => r.connectionId.any ids.contains)
      (fun r => { r with connectionId := none }) s.requests
    entitlements := detached ids s.entitlements
    directory := { s.directory with
      credentials := updateWhere (fun c => ids.contains c.providerResourceAuthorizationId)
        (fun c => { c with status := .revoked }) s.directory.credentials
      authorizations := updateWhere (fun a => ids.contains a.id)
        (fun a => { a with status := .revoked, revokedAt := some s.now })
        s.directory.authorizations } }

section Swept

variable {ids : List Id}

end Swept

end Update

namespace Sample

def connector : Connector where
  id := "c"
  providerId := "p"
  displayName := "Provider"
  enabled := true
  authenticationEnabled := false
  clientId := none
  clientSecret := none
  scopes := none
  providerMetadata := none
  resourceAuthorizationEnabled := true
  resourceClientId := some "client"
  resourceClientSecret := some "secret"
  resourceIssuer := some "https://server"
  resourceAuthorizationEndpoint := some "https://server/authorize"
  resourceTokenEndpoint := some "https://server/token"
  resourceUserInfoEndpoint := some "https://server/userinfo"
  resourceRevocationEndpoint := some "https://server/revoke"
  resourceJwksEndpoint := some "https://server/jwks"
  resourceRegistrationEndpoint := none
  resourceRegistrationMode := some "manual"
  resourceRegistrationClientUri := none
  resourceRegistrationAccessToken := none
  resourceRegisteredScopes := none
  resourceClientGeneration := 1
  resourceRetiredClientGenerations := []
  scopesSupported := []
  authorizationDetailsCatalogEndpoint := none
  authorizationDetailsCatalogScope := none
  updatedAt := 0

def repositories : ApiResource :=
  { notes with
    id := "repositories"
    identifier := "repositories"
    resourceUrl := "https://repositories"
    authorizationModel := .external
    connectorId := some "c"
    scopeRegistry := some [⟨"read", .automatic⟩] }

def servers : AuthorizationServers where
  discover issuer := .ok ⟨issuer, issuer ++ "/authorize", issuer ++ "/token", issuer ++ "/userinfo",
    issuer ++ "/jwks", none, some (issuer ++ "/revoke"), [], none, none, []⟩
  registerClient _ _ := .error (.error "unavailable")

def driver : ConnectorDriver := ⟨fun _ => true, fun _ => .ok ()⟩

/-- Another client at the same authorization server. -/
def otherClient : UpdateConnector where
  resourceAuthorization := some (some
    ⟨true, some "https://server", some "manual", some "other", some "other-secret"⟩)

def reset : Administration Connector := updateConnector servers driver "c" otherClient

end Sample

end FlareAuth
