import FlareAuth.Concurrent.Pool
import FlareAuth.ExchangeStore
import FlareAuth.ResourceServers

/-!
# Applications and their OAuth clients

An Application and its OAuth client are two rows, written by the repository of
Applications; the repository of Resource Servers narrows the scopes of the first
row. Lookups come one at a time and a batch writes what earlier ones read.
Descriptive columns and the tables of grants are left out.
-/

namespace FlareAuth.Applications

open Concurrent Relational Procedure
open ResourceServers (ResourceScopesConfiguration UpdateApiResource Discovery)
open TokenExchange (TokenExchangePolicy ScopeMapping uniqueViolation)

inductive ClientType where
  | publicSpa
  | publicNative
  | confidentialWeb
  | machine
  deriving DecidableEq, Repr

inductive GrantType where
  | authorizationCode
  | refreshToken
  | clientCredentials
  | deviceCode
  | tokenExchange
  deriving DecidableEq, Repr

structure OAuthClient where
  clientId : String
  type : ClientType
  disabled : Bool
  skipConsent : Bool
  redirectUris : List String
  postLogoutRedirectUris : List String
  grantTypes : List GrantType
  isPublic : Bool
  scopes : List String

structure Application where
  id : Id
  oauthClientId : String
  ownerOrganizationId : Id
  visibility : Visibility
  disabled : Bool
  consentRequired : Bool
  oidcScopes : List String
  resourceScopes : List ResourceScopesConfiguration
  corsOrigins : List String
  tokenExchangePolicies : List TokenExchangePolicy

def clientScopes (oidcScopes : List String) (resourceScopes : List ResourceScopesConfiguration) :
    List String :=
  oidcScopes ++ Text.unique (resourceScopes.flatMap (·.scopes))

def Application.clientScopes (a : Application) : List String :=
  Applications.clientScopes a.oidcScopes a.resourceScopes

structure Store where
  now : ℕ
  generated : ℕ
  organizations : List Organization
  resources : Keyed ApiResource.id
  clients : Keyed OAuthClient.clientId
  applications : Keyed Application.id

abbrev StoreBatch := Batch Store Failure

/-- The columns that an update sets. -/
structure ApplicationPatch where
  visibility : Option Visibility
  disabled : Option Bool
  consentRequired : Option Bool
  redirectUris : Option (List String)
  postLogoutRedirectUris : Option (List String)
  corsOrigins : Option (List String)
  allowedGrantTypes : Option (List GrantType)
  oidcScopes : Option (List String)
  resourceScopes : Option (List ResourceScopesConfiguration)
  tokenExchangePolicies : Option (List TokenExchangePolicy)

namespace ApplicationPatch

def application (patch : ApplicationPatch) (a : Application) : Application :=
  { a with
    visibility := patch.visibility.getD a.visibility
    disabled := patch.disabled.getD a.disabled
    consentRequired := patch.consentRequired.getD a.consentRequired
    oidcScopes := patch.oidcScopes.getD a.oidcScopes
    resourceScopes := patch.resourceScopes.getD a.resourceScopes
    corsOrigins := patch.corsOrigins.getD a.corsOrigins
    tokenExchangePolicies := patch.tokenExchangePolicies.getD a.tokenExchangePolicies }

/-- Whether the update writes the scopes of the client. -/
def setsScopes (patch : ApplicationPatch) : Bool :=
  patch.oidcScopes.isSome || patch.resourceScopes.isSome

/-- The client row, whose scopes come from the patch and the Application that was read. -/
def client (patch : ApplicationPatch) (current : Application) (c : OAuthClient) : OAuthClient :=
  { c with
    disabled := patch.disabled.getD c.disabled
    skipConsent := (patch.consentRequired.map (!·)).getD c.skipConsent
    redirectUris := patch.redirectUris.getD c.redirectUris
    postLogoutRedirectUris := patch.postLogoutRedirectUris.getD c.postLogoutRedirectUris
    grantTypes := patch.allowedGrantTypes.getD c.grantTypes
    scopes := if patch.setsScopes then
        clientScopes (patch.oidcScopes.getD current.oidcScopes)
          (patch.resourceScopes.getD current.resourceScopes)
      else c.scopes }

theorem application_id (patch : ApplicationPatch) (a : Application) :
    (patch.application a).id = a.id := rfl

theorem client_clientId (patch : ApplicationPatch) (current : Application) (c : OAuthClient) :
    (patch.client current c).clientId = c.clientId := rfl

end ApplicationPatch

structure ScopeWrite where
  applicationId : Id
  resourceScopes : List ResourceScopesConfiguration

/-- The row after the statements of a batch, each about another Application. -/
def Application.written (writes : List ScopeWrite) (a : Application) : Application :=
  match writes.find? fun w => w.applicationId = a.id with
  | some w => { a with resourceScopes := w.resourceScopes }
  | none => a

theorem Application.written_id (writes : List ScopeWrite) (a : Application) :
    (a.written writes).id = a.id := by
  unfold written
  split <;> rfl

theorem Application.written_oauthClientId (writes : List ScopeWrite) (a : Application) :
    (a.written writes).oauthClientId = a.oauthClientId := by
  unfold written
  split <;> rfl

namespace Store

def nextId (s : Store) : Id := "id-" ++ toString s.generated

def findOrganization (s : Store) (id : Id) : Option Organization :=
  s.organizations.find? fun o => o.id = id

def findResource (s : Store) (id : Id) : Option ApiResource :=
  (s.resources.find id).filter fun r => r.deletedAt.isNone

def findResources (s : Store) (ids : List Id) : List ApiResource :=
  s.resources.rows.filter fun r => ids.contains r.id && r.deletedAt.isNone

def findById (s : Store) (id : Id) : Option (Application × OAuthClient) := do
  let application ← s.applications.find id
  let client ← s.clients.find application.oauthClientId
  return (application, client)

def allActive (s : Store) (resourceScopes : List ResourceScopesConfiguration) : Bool :=
  resourceScopes.all fun c =>
    (s.resources.find c.resourceServerId).any fun r => r.enabled && r.deletedAt.isNone

end Store

namespace Repository

def create (client : OAuthClient) (application : Application) : StoreBatch Unit := fun s =>
  if s.applications.rows.any fun a => a.oauthClientId = application.oauthClientId then
    .error uniqueViolation
  else
    match s.clients.insert? client, s.applications.insert? application with
    | some clients, some applications =>
      .ok ((), { s with clients := clients, applications := applications })
    | _, _ => .error uniqueViolation

/-- The updates of both rows, if the resources that the patch lists are active. -/
def update (id : Id) (patch : ApplicationPatch) (current : Application) : StoreBatch Bool :=
  fun s =>
    let active := s.allActive (patch.resourceScopes.getD [])
    let selected := fun a : Application => a.id == id && active
    .ok (s.applications.rows.any selected,
      { s with
        applications := s.applications.update selected patch.application patch.application_id
        clients := s.clients.update (fun c => c.clientId == current.oauthClientId && active)
          (patch.client current) (patch.client_clientId current) })

def writeScopes (writes : List ScopeWrite) (s : Store) : Store :=
  { s with
    applications := s.applications.update (fun _ => true) (Application.written writes)
      (Application.written_id writes) }

/-- Another row has the identifier or the URL that an update sets. -/
def keyTaken (id : Id) (patch : UpdateApiResource) (s : Store) : Bool :=
  s.resources.rows.any (ResourceServers.Repository.live id) &&
    s.resources.rows.any fun r => r.id != id && r.deletedAt.isNone &&
      (patch.identifier == some r.identifier || patch.resourceUrl == some r.resourceUrl)

def patchResource (id : Id) (patch : UpdateApiResource) (s : Store) : Store :=
  { s with
    resources := s.resources.update (ResourceServers.Repository.live id)
      (ResourceServers.Repository.patched patch) (ResourceServers.Repository.patched_id patch) }

/-- The update of a Resource Server, under the two partial unique indexes. -/
def updateRow (id : Id) (patch : UpdateApiResource) : StoreBatch Bool := fun s =>
  if keyTaken id patch s then
    .error (conflict "An active Resource Server already uses this identifier or resource URL.")
  else .ok (s.resources.rows.any (ResourceServers.Repository.live id), patchResource id patch s)

def updateResource (id : Id) (patch : UpdateApiResource) (writes : List ScopeWrite) :
    StoreBatch Bool := do
  let updated ← updateRow id patch
  Batch.modify (writeScopes writes)
  return updated

theorem registered_id (registry : List ResourceScope) (r : ApiResource) :
    ({ r with scopeRegistry := some registry } : ApiResource).id = r.id := rfl

def setScopeRegistry (id : Id) (registry : List ResourceScope) (s : Store) : Store :=
  { s with
    resources := s.resources.update (ResourceServers.Repository.live id)
      (fun r => { r with scopeRegistry := some registry }) (registered_id registry) }

def replaceResourceDiscovery (id : Id) (registry : List ResourceScope)
    (writes : List ScopeWrite) : StoreBatch Bool := do
  Batch.modify (setScopeRegistry id registry)
  Batch.modify (writeScopes writes)
  return true

def withoutResource (id : Id) (a : Application) : Application :=
  { a with resourceScopes := ResourceServers.Repository.withoutResource id a.resourceScopes }

theorem withoutResource_id (id : Id) (a : Application) : (withoutResource id a).id = a.id := rfl

def deleteResource (id : Id) (now : ℕ) : StoreBatch Bool := do
  Batch.modify fun s => { s with
    resources := s.resources.update (ResourceServers.Repository.live id)
      (fun r => { r with enabled := false, deletedAt := some now }) fun _ => rfl }
  Batch.modify fun s => { s with
    applications := s.applications.update (fun _ => true) (withoutResource id)
      (withoutResource_id id) }
  return true

end Repository

/-- What a resource that turns private takes from the Applications of other Organizations. -/
def confinedWrites (id ownerOrganizationId : Id) (applications : List Application) :
    List ScopeWrite :=
  applications.filterMap fun a =>
    let kept := ResourceServers.Repository.withoutResource id a.resourceScopes
    if a.ownerOrganizationId = ownerOrganizationId ∨ kept.length = a.resourceScopes.length then none
    else some ⟨a.id, kept⟩

def declaredWrites (id : Id) (declared : List String) (applications : List Application) :
    List ScopeWrite :=
  applications.filterMap fun a =>
    let kept := ResourceServers.Repository.declaredConfigurations id declared a.resourceScopes
    if kept = a.resourceScopes then none else some ⟨a.id, kept⟩

/-- The last ones belong to the environment: time, Organizations and new Resource Servers. -/
inductive Operation where
  | read
  | generateId
  | createApplication (client : OAuthClient) (application : Application)
  | updateApplication (id : Id) (patch : ApplicationPatch) (current : Application)
  | updateResource (id : Id) (patch : UpdateApiResource) (writes : List ScopeWrite)
  | replaceResourceDiscovery (id : Id) (registry : List ResourceScope) (writes : List ScopeWrite)
  | deleteResource (id : Id) (now : ℕ)
  | elapse (milliseconds : ℕ)
  | organizations (rows : List Organization)
  | createResource (row : ApiResource)

def Operation.perform : Operation → Store → Store
  | .read, s => s
  | .generateId, s => { s with generated := s.generated + 1 }
  | .createApplication client application, s => (Repository.create client application).settle s
  | .updateApplication id patch current, s => (Repository.update id patch current).settle s
  | .updateResource id patch writes, s => (Repository.updateResource id patch writes).settle s
  | .replaceResourceDiscovery id registry writes, s =>
    (Repository.replaceResourceDiscovery id registry writes).settle s
  | .deleteResource id now, s => (Repository.deleteResource id now).settle s
  | .elapse milliseconds, s => { s with now := s.now + milliseconds }
  | .organizations rows, s => { s with organizations := rows }
  | .createResource row, s =>
    { s with resources := (s.resources.insert? row).getD s.resources }

instance : Operational Operation Store := ⟨Operation.perform⟩

theorem apply_eq (op : Operation) (s : Store) : apply op s = op.perform s := rfl

abbrev Registry := Procedure Store Operation Failure

variable {α : Type}

def ask (answer : Store → α) : Registry α := query .read answer

def generateId : Registry Id := query .generateId (·.nextId)

def commit (op : Operation) (batch : StoreBatch α) : Registry α :=
  step op fun s => Procedure.ofExcept (batch.outcome s)

end FlareAuth.Applications
