import FlareAuth.ExternalAuthorization

/-!
# Provider Connectors

The configuration of a connector's resource authorization: the metadata and the
client that an authorization server answers, and the columns which an update
writes from them.
-/

namespace FlareAuth

/-- The validated discovery document of an authorization server. -/
structure OidcMetadata where
  issuer : String
  authorizationEndpoint : String
  tokenEndpoint : String
  userInfoEndpoint : String
  jwksEndpoint : String
  registrationEndpoint : Option String
  revocationEndpoint : Option String
  scopesSupported : List String
  authorizationDetailsCatalogEndpoint : Option String
  authorizationDetailsCatalogScope : Option String
  /-- `registrationScopes`, which a client is registered for. -/
  registrationScopes : List String

/-- The client of a connector at an authorization server. -/
structure OAuthClient where
  clientId : String
  clientSecret : String
  registrationClientUri : Option String
  registrationAccessToken : Option String
  registeredScopes : Option (List String)
  deriving DecidableEq

/-- What the discovery and the dynamic registration of authorization servers answer. -/
structure AuthorizationServers where
  discover : (issuer : String) → Except Failure OidcMetadata
  registerClient : (endpoint : String) → (scopes : List String) → Except Failure OAuthClient

structure ResourceAuthorizationInput where
  enabled : Bool
  issuer : Option String
  registrationMode : Option String
  clientId : Option String
  clientSecret : Option String

/-- The body of an update, apart from the slug, which nothing here reads. `clientId`,
`clientSecret` and `resourceAuthorization` may be left out, `null` or given. -/
structure UpdateConnector where
  displayName : Option String := none
  enabled : Option Bool := none
  authenticationEnabled : Option Bool := none
  clientId : Option (Option String) := none
  clientSecret : Option (Option String) := none
  scopes : Option (List String) := none
  providerMetadata : Option Json := none
  resourceAuthorization : Option (Option ResourceAuthorizationInput) := none

structure OidcConnector where
  metadata : OidcMetadata
  client : OAuthClient

def manualClient (input : ResourceAuthorizationInput) : Except Failure OAuthClient :=
  match present input.clientId, present input.clientSecret with
  | some clientId, some clientSecret => .ok ⟨clientId, clientSecret, none, none, none⟩
  | _, _ => .error (badRequest "Manual OIDC registration requires client credentials.")

def dynamicClient (servers : AuthorizationServers) (metadata : OidcMetadata) :
    Except Failure OAuthClient :=
  match present metadata.registrationEndpoint with
  | some endpoint => servers.registerClient endpoint metadata.registrationScopes
  | none => .error (badRequest "OIDC provider does not support dynamic client registration.")

def prepareOidcConnector (servers : AuthorizationServers) (input : ResourceAuthorizationInput) :
    Except Failure OidcConnector :=
  match present input.issuer with
  | none => .error (badRequest "OIDC connectors require an issuer.")
  | some issuer => do
    let metadata ← servers.discover issuer
    let client ←
      if input.registrationMode.getD "manual" = "manual" then manualClient input
      else dynamicClient servers metadata
    return ⟨metadata, client⟩

namespace Connector

/-- The credentials that an update leaves out are the stored ones. -/
def completedInput (c : Connector) (input : ResourceAuthorizationInput) :
    ResourceAuthorizationInput :=
  { input with
    clientId := input.clientId.or c.resourceClientId
    clientSecret := input.clientSecret.or c.resourceClientSecret }

/-- The columns that a change of the resource authorization writes: the client starts again as
generation 1. -/
def configured (input : Option ResourceAuthorizationInput) (oidc : Option OidcConnector)
    (c : Connector) : Connector :=
  { c with
    resourceAuthorizationEnabled := (input.map (·.enabled)).getD false
    resourceClientId := oidc.map (·.client.clientId)
    resourceClientSecret := oidc.map (·.client.clientSecret)
    resourceIssuer := oidc.map (·.metadata.issuer)
    resourceAuthorizationEndpoint := oidc.map (·.metadata.authorizationEndpoint)
    resourceTokenEndpoint := oidc.map (·.metadata.tokenEndpoint)
    resourceUserInfoEndpoint := oidc.map (·.metadata.userInfoEndpoint)
    resourceRevocationEndpoint := oidc.bind (·.metadata.revocationEndpoint)
    resourceJwksEndpoint := oidc.map (·.metadata.jwksEndpoint)
    resourceRegistrationEndpoint := oidc.bind (·.metadata.registrationEndpoint)
    resourceRegistrationMode := input.bind (·.registrationMode)
    resourceRegistrationClientUri := oidc.bind (·.client.registrationClientUri)
    resourceRegistrationAccessToken := oidc.bind (·.client.registrationAccessToken)
    resourceRegisteredScopes := oidc.bind (·.client.registeredScopes)
    resourceClientGeneration := 1
    resourceRetiredClientGenerations := []
    scopesSupported := (oidc.map (·.metadata.scopesSupported)).getD []
    authorizationDetailsCatalogEndpoint :=
      oidc.bind (·.metadata.authorizationDetailsCatalogEndpoint)
    authorizationDetailsCatalogScope := oidc.bind (·.metadata.authorizationDetailsCatalogScope) }

/-- The columns that an update writes besides, its own time always. -/
def described (input : UpdateConnector) (now : ℕ) (c : Connector) : Connector :=
  { c with
    displayName := input.displayName.getD c.displayName
    enabled := input.enabled.getD c.enabled
    authenticationEnabled := input.authenticationEnabled.getD c.authenticationEnabled
    clientId := input.clientId.getD c.clientId
    clientSecret := input.clientSecret.getD c.clientSecret
    scopes := input.scopes.or c.scopes
    providerMetadata := input.providerMetadata.or c.providerMetadata
    updatedAt := now }

def patched (input : UpdateConnector) (oidc : Option OidcConnector) (now : ℕ) (c : Connector) :
    Connector :=
  match input.resourceAuthorization with
  | some resourceAuthorization => (c.described input now).configured resourceAuthorization oidc
  | none => c.described input now

theorem patched_id (input : UpdateConnector) (oidc : Option OidcConnector) (now : ℕ)
    (c : Connector) :
    (c.patched input oidc now).id = c.id := by
  unfold patched
  split <;> rfl

/-- `assertResourceAuthorizationComplete`. -/
def resourceAuthorizationComplete (c : Connector) : Bool :=
  [c.resourceClientId, c.resourceClientSecret, c.resourceIssuer, c.resourceAuthorizationEndpoint,
    c.resourceTokenEndpoint, c.resourceUserInfoEndpoint, c.resourceJwksEndpoint,
    c.resourceRevocationEndpoint].all fun column => (present column).isSome

/-- `assertComplete`; what it asks about authentication is given. -/
def assertComplete (authenticationComplete : Connector → Except Failure Unit) (c : Connector) :
    Except Failure Unit :=
  if !c.enabled then .ok ()
  else do
    authenticationComplete c
    if c.resourceAuthorizationEnabled && !c.resourceAuthorizationComplete then
      throw (badRequest
        "Enabled resource authorization requires a complete external OAuth client.")

end Connector

/-- What an update asks of the driver and of the authentication columns of a connector. -/
structure ConnectorDriver where
  resourceAuthorization : Connector → Bool
  authenticationComplete : Connector → Except Failure Unit

def assertResourceAuthorizationCapability (driver : ConnectorDriver) (c : Connector)
    (input : Option (Option ResourceAuthorizationInput)) : Except Failure Unit :=
  if (input.join.any (·.enabled)) && !driver.resourceAuthorization c then
    .error (badRequest "Connector driver does not support resource authorization.")
  else .ok ()

/-- The client and the metadata of a new configuration. -/
def prepareResourceAuthorization (servers : AuthorizationServers) (c : Connector)
    (input : Option (Option ResourceAuthorizationInput)) : Except Failure (Option OidcConnector) :=
  match input.join with
  | some resourceAuthorization =>
    (prepareOidcConnector servers (c.completedInput resourceAuthorization)).map some
  | none => .ok none

end FlareAuth
