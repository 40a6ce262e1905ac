import FlareAuth.AuthorizationDetails
import FlareAuth.Relational.Table

/-!
# The directory: principals, resources and connections

Rows of the tables which the access rules read, with the lookups of the
repositories. Identities, bindings, Resource Servers and connections are never
deleted and keep some columns for ever; other tables may change in any way.
Times are in milliseconds since the epoch.
-/

namespace FlareAuth

open Relational

abbrev Id := String

inductive Status where
  | active
  | inactive
  | suspended
  | revoked
  deriving DecidableEq, Repr

/-- Exactly one of a user and an Organization. -/
inductive Owner where
  | user (id : Id)
  | organization (id : Id)
  deriving DecidableEq, Repr

def Owner.userId : Owner → Option Id
  | .user id => some id
  | .organization _ => none

def Owner.organizationId : Owner → Option Id
  | .user _ => none
  | .organization id => some id

structure User where
  id : Id
  banned : Bool

structure LinkedAccount where
  id : Id
  userId : Id

structure Organization where
  id : Id
  slug : String
  disabled : Bool

structure Member where
  organizationId : Id
  userId : Id
  roles : List String

structure RoleScope where
  resourceId : Id
  scope : String
  deriving DecidableEq

structure OrganizationRole where
  organizationId : Id
  role : String
  permission : List RoleScope

inductive GrantMode where
  | automatic
  | assigned
  deriving DecidableEq, Repr

structure ResourceScope where
  value : String
  grantMode : GrantMode
  deriving DecidableEq

inductive AuthorizationModel where
  | native
  | external
  deriving DecidableEq, Repr

inductive Visibility where
  | publicResource
  | privateResource
  deriving DecidableEq, Repr

structure ApiResource where
  id : Id
  identifier : String
  resourceUrl : String
  authorizationModel : AuthorizationModel
  connectorId : Option Id
  authorizationDetails : List AuthorizationDetail
  enabled : Bool
  ownerOrganizationId : Id
  visibility : Visibility
  scopeRegistry : Option (List ResourceScope)
  availableToAgents : Bool
  deletedAt : Option ℕ

/-- A client that a connector has replaced, kept for what was authorized with it. -/
structure ClientGeneration where
  generation : ℕ
  clientId : String
  clientSecret : String
  registrationClientUri : Option String
  registrationAccessToken : Option String
  registeredScopes : List String
  deriving DecidableEq

structure Connector where
  id : Id
  providerId : String
  displayName : String
  enabled : Bool
  authenticationEnabled : Bool
  clientId : Option String
  clientSecret : Option String
  scopes : Option (List String)
  providerMetadata : Option Json
  resourceAuthorizationEnabled : Bool
  resourceClientId : Option String
  resourceClientSecret : Option String
  resourceIssuer : Option String
  resourceAuthorizationEndpoint : Option String
  resourceTokenEndpoint : Option String
  resourceUserInfoEndpoint : Option String
  resourceRevocationEndpoint : Option String
  resourceJwksEndpoint : Option String
  resourceRegistrationEndpoint : Option String
  resourceRegistrationMode : Option String
  resourceRegistrationClientUri : Option String
  resourceRegistrationAccessToken : Option String
  resourceRegisteredScopes : Option (List String)
  resourceClientGeneration : ℕ
  resourceRetiredClientGenerations : List ClientGeneration
  scopesSupported : List String
  authorizationDetailsCatalogEndpoint : Option String
  authorizationDetailsCatalogScope : Option String
  updatedAt : ℕ
  deriving DecidableEq

structure ProviderConnection where
  id : Id
  connectorId : Id
  owner : Owner
  authenticationAccountId : Option Id
  status : Status

structure ProviderResourceAuthorization where
  id : Id
  providerConnectionId : Id
  resourceId : Id
  status : Status
  revokedAt : Option ℕ

structure ProviderCredential where
  id : Id
  providerResourceAuthorizationId : Id
  grantedScopes : List String
  authorizationDetails : List AuthorizationDetail
  clientGeneration : ℕ
  status : Status

structure AgentIdentity where
  id : Id
  issuer : String
  subject : String
  ownerUserId : Id
  status : Status
  deletedAt : Option ℕ

structure AgentBinding where
  id : Id
  agentIdentityId : Id
  protocolAgentId : Id
  hostId : Id
  status : Status
  revokedAt : Option ℕ

structure Directory where
  users : List User := []
  accounts : List LinkedAccount := []
  organizations : List Organization := []
  members : List Member := []
  organizationRoles : List OrganizationRole := []
  connectors : List Connector := []
  providerConnections : List ProviderConnection := []
  credentials : List ProviderCredential := []
  resources : List ApiResource := []
  authorizations : List ProviderResourceAuthorization := []
  identities : List AgentIdentity := []
  bindings : List AgentBinding := []

/-- A connection as the repository reads it: the authorization with its owner and its
credentials. -/
structure ResourceConnection where
  id : Id
  providerConnectionId : Id
  resourceId : Id
  status : Status
  owner : Owner
  credentials : List ProviderCredential

def ResourceConnection.activeCredentials (c : ResourceConnection) : List ProviderCredential :=
  c.credentials.filter fun credential => credential.status = .active

def ResourceConnection.grantedScopes (c : ResourceConnection) : List String :=
  Text.sort (Text.unique (c.activeCredentials.flatMap (·.grantedScopes)))

/-- The details of the active credentials, each text kept once. -/
def uniqueJsonValues (values : List Json) : List Json :=
  (values.foldl (fun seen value =>
    if seen.any fun v => v.stringify == value.stringify then seen else seen ++ [value]) [])

def ResourceConnection.authorizationDetails (c : ResourceConnection) : List AuthorizationDetail :=
  uniqueJsonValues (c.activeCredentials.flatMap (·.authorizationDetails))

namespace Directory

def findResource (d : Directory) (id : Id) : Option ApiResource :=
  d.resources.find? fun r => r.id = id ∧ r.deletedAt = none

def findResourceByResourceUrl (d : Directory) (url : String) : Option ApiResource :=
  d.resources.find? fun r => r.resourceUrl = url ∧ r.enabled ∧ r.deletedAt = none

/-- `activeResource`: the row an insert selects from. -/
def activeResource (d : Directory) (id : Id) : Option ApiResource :=
  d.resources.find? fun r => r.id = id ∧ r.enabled ∧ r.deletedAt = none

def findOrganization (d : Directory) (id : Id) : Option Organization :=
  d.organizations.find? fun o => o.id = id

def findMemberByOrganizationUser (d : Directory) (organizationId userId : Id) : Option Member :=
  d.members.find? fun m => m.organizationId = organizationId ∧ m.userId = userId

def listUserMemberships (d : Directory) (userId : Id) : List Member :=
  d.members.filter fun m => m.userId = userId

def listOrganizationRoleScopes (d : Directory) (organizationId : Id) (role : String) :
    List RoleScope :=
  ((d.organizationRoles.find? fun r => r.organizationId = organizationId ∧ r.role = role).map
    (·.permission)).getD []

def findConnector (d : Directory) (id : Id) : Option Connector :=
  d.connectors.find? fun c => c.id = id

def findProviderConnection (d : Directory) (id : Id) : Option ProviderConnection :=
  d.providerConnections.find? fun c => c.id = id

def toConnection (d : Directory) (a : ProviderResourceAuthorization) :
    Option ResourceConnection :=
  (d.findProviderConnection a.providerConnectionId).map fun c =>
    ⟨a.id, a.providerConnectionId, a.resourceId, a.status, c.owner,
      d.credentials.filter fun credential => credential.providerResourceAuthorizationId = a.id⟩

def connections (d : Directory) : List ResourceConnection :=
  d.authorizations.filterMap d.toConnection

def findConnection (d : Directory) (id : Id) : Option ResourceConnection :=
  d.connections.find? fun c => c.id = id

def findConnectionByOwnerResource (d : Directory) (resourceId ownerUserId : Id) :
    Option ResourceConnection :=
  d.connections.find? fun c => c.resourceId = resourceId ∧ c.owner = .user ownerUserId

def listConnectionsByUser (d : Directory) (userId : Id) : List ResourceConnection :=
  d.connections.filter fun c => c.owner = .user userId

def activeConnection (d : Directory) (id : Id) : Bool :=
  d.authorizations.any fun a => a.id = id ∧ a.status = .active

def findIdentity (d : Directory) (id : Id) : Option AgentIdentity :=
  d.identities.find? fun i => i.id = id ∧ i.deletedAt = none

def findByIssuerSubject (d : Directory) (issuer subject : String) : Option AgentIdentity :=
  d.identities.find? fun i => i.issuer = issuer ∧ i.subject = subject ∧ i.deletedAt = none

def bindingsOf (d : Directory) (identityId : Id) : List AgentBinding :=
  d.bindings.filter fun b => b.agentIdentityId = identityId

/-- `findActiveBindingByProtocolAgent`: an active binding of an active identity. -/
def findActiveBinding (d : Directory) (protocolAgentId : Id) :
    Option (AgentIdentity × AgentBinding) :=
  (d.bindings.filterMap fun b =>
    if b.protocolAgentId = protocolAgentId ∧ b.status = .active then
      (d.identities.find? fun i =>
        i.id = b.agentIdentityId ∧ i.status = .active ∧ i.deletedAt = none).map fun i => (i, b)
    else none).head?

end Directory

end FlareAuth
