import FlareAuth.Applications

/-!
# Creating and changing Applications and Resource Servers

The calls that write an Application, its OAuth client or a Resource Server that
Applications list. The rules for redirect URIs and origins, which parse URLs,
and what discovery answers come from outside.
-/

namespace FlareAuth.Applications

open Concurrent Relational Procedure
open ResourceServers (ResourceScopesConfiguration UpdateApiResource Discovery)
open TokenExchange (TokenExchangePolicy ScopeMapping)

/-- `validateRedirectUri` and `validateCorsOrigin`. -/
structure UriRules where
  redirectUri : (type : ClientType) → (value label : String) → Except Failure Unit
  corsOrigin : (value : String) → Except Failure Unit

structure ClientSettings where
  redirectUris : List String
  isPublic : Bool
  allowedGrantTypes : List GrantType
  oidcScopes : List String

def clientTypeConfiguration (type : ClientType) (redirectUris : List String)
    (deviceLoginEnabled tokenExchangeEnabled : Bool) : ClientSettings where
  redirectUris := redirectUris
  isPublic := type = .publicSpa ∨ type = .publicNative
  allowedGrantTypes :=
    match type with
    | .machine => [.clientCredentials, .tokenExchange, .refreshToken]
    | .confidentialWeb => [.authorizationCode, .refreshToken] ++
      if tokenExchangeEnabled then [.tokenExchange] else []
    | .publicNative => [.authorizationCode, .refreshToken] ++
      if deviceLoginEnabled then [.deviceCode] else []
    | .publicSpa => [.authorizationCode, .refreshToken]
  oidcScopes :=
    match type with
    | .machine => ["offline_access"]
    | _ => ["openid", "profile", "email", "groups", "offline_access"]

def normalizeClientSettings (rules : UriRules) (type : ClientType) (redirectUris : List String)
    (deviceLoginEnabled tokenExchangeEnabled : Bool) : Except Failure ClientSettings := do
  let normalized := Text.unique redirectUris
  if deviceLoginEnabled ∧ type ≠ .publicNative then
    throw (badRequest "Device login is available only for public native clients.")
  if type = .machine ∧ normalized ≠ [] then
    throw (badRequest "Machine Applications do not use redirect URIs.")
  if type ≠ .machine ∧ normalized = [] then
    throw (badRequest "Authorization-code clients require at least one redirect URI.")
  normalized.forM fun uri => rules.redirectUri type uri "Redirect URIs"
  return clientTypeConfiguration type normalized deviceLoginEnabled tokenExchangeEnabled

def normalizePostLogoutRedirectUris (rules : UriRules) (type : ClientType)
    (values : List String) : Except Failure (List String) := do
  let redirectUris := Text.unique values
  if type = .machine ∧ redirectUris ≠ [] then
    throw (badRequest "Machine Applications do not use post sign-out redirect URIs.")
  redirectUris.forM fun uri => rules.redirectUri type uri "Post sign-out redirect URIs"
  return redirectUris

def normalizeCorsOrigins (rules : UriRules) (values : List String) :
    Except Failure (List String) := do
  let origins := Text.unique values
  origins.forM rules.corsOrigin
  return origins

def requireActiveOrganization (id : Id) : Registry Unit := do
  let organization ← ask (·.findOrganization id)
  let organization ← orThrow organization (notFound "Owner Organization was not found.")
  require (!organization.disabled) (badRequest "Owner Organization must be active.")

def requirePlatformOrganization : Registry Organization := do
  let organization ← ask fun s => s.organizations.find? fun o => o.slug = "realmroot"
  orThrow organization (.error "The built-in platform Organization is unavailable.")

def hasDuplicates (keys : List String) : Bool := (Text.unique keys).length != keys.length

/-- The configuration if its resource may be listed, or none for a resource that is gone. -/
def validateConfiguration (ownerOrganizationId : Id) (resources : List ApiResource)
    (existingResourceServerIds : List Id) (c : ResourceScopesConfiguration) :
    Except Failure (Option ResourceScopesConfiguration) :=
  match resources.find? fun r => r.id = c.resourceServerId with
  | none =>
    if existingResourceServerIds.contains c.resourceServerId then .ok none
    else .error (badRequest "Resource Server is not active.")
  | some resource =>
    if !resource.enabled then .error (badRequest "Resource Server is not active.")
    else if !resource.visibleToOrganization ownerOrganizationId then .error
      (badRequest "Private Resource Server is not visible to the Application owner Organization.")
    else if c.scopes.any fun scope => !resource.declaredScopes.contains scope then .error
      (badRequest "Application scope allowlist contains an undeclared Resource Server scope.")
    else .ok (some c)

def validateApplicationResourceScopes (ownerOrganizationId : Id)
    (configurations : List ResourceScopesConfiguration) (existingResourceServerIds : List Id) :
    Registry (List ResourceScopesConfiguration) := do
  let ids := configurations.map (·.resourceServerId)
  require (!hasDuplicates ids) (badRequest
    "Each Resource Server can appear only once in an Application scope allowlist.")
  if configurations.isEmpty then return []
  let resources ← ask (·.findResources ids)
  let active ← Procedure.ofExcept (configurations.mapM
    (validateConfiguration ownerOrganizationId resources existingResourceServerIds))
  return active.reduceOption

section Policies

variable (ownerOrganizationId : Id) (resources : List ApiResource)
  (targets : List (Application × OAuthClient)) (resourceScopes : List ResourceScopesConfiguration)

def policyResource (id : Id) (role : String) : Except Failure ApiResource :=
  match resources.find? fun r => r.id = id with
  | none => .error
    (badRequest ("Token exchange policy " ++ role ++ " Resource Server must be active."))
  | some resource =>
    if !resource.enabled then .error
      (badRequest ("Token exchange policy " ++ role ++ " Resource Server must be active."))
    else if !resource.visibleToOrganization ownerOrganizationId then .error (badRequest
      ("Token exchange policy " ++ role ++
        " Resource Server must be visible to the Application tenant."))
    else .ok resource

def validateMapping (source target : ApiResource) (m : ScopeMapping) : Except Failure Unit :=
  let configured :=
    (resourceScopes.filter fun c => c.resourceServerId = target.id).flatMap (·.scopes)
  if !source.declaredScopes.contains m.sourceScope then .error
    (badRequest "Token exchange policy contains an undeclared source Resource Server scope.")
  else if !target.declaredScopes.contains m.targetScope then .error
    (badRequest "Token exchange policy contains an undeclared target Resource Server scope.")
  else if !configured.contains m.targetScope then .error
    (badRequest "Token exchange policy target scopes must be configured on the Application.")
  else .ok ()

def validatePolicy : TokenExchangePolicy → Except Failure Unit
  | .application sourceId targetId => do
    let _ ← policyResource ownerOrganizationId resources sourceId "source"
    let eligible := targets.any fun x => x.1.id = targetId && !(x.1.disabled || x.2.disabled) &&
      x.1.visibility = .privateResource && x.1.ownerOrganizationId = ownerOrganizationId &&
      x.1.oidcScopes.contains "openid" && x.1.oidcScopes.contains "groups"
    if !eligible then throw (badRequest
      "Token exchange target Application must be an active private OIDC Application in the same Organization with openid and groups scopes.")
  | .resourceServer sourceId targetId mappings => do
    let source ← policyResource ownerOrganizationId resources sourceId "source"
    let target ← policyResource ownerOrganizationId resources targetId "target"
    if hasDuplicates (mappings.map fun m => m.sourceScope ++ "\x00" ++ m.targetScope) then
      throw (badRequest "Token exchange scope mappings must be unique within a policy.")
    mappings.forM (validateMapping resourceScopes source target)

end Policies

def policyPair : TokenExchangePolicy → String
  | .resourceServer source target _ => source ++ "\x00resource:" ++ target
  | .application source target => source ++ "\x00application:" ++ target

def policyResourceIds : TokenExchangePolicy → List Id
  | .resourceServer source target _ => [source, target]
  | .application source _ => [source]

def policyTargetId : TokenExchangePolicy → Option Id
  | .resourceServer _ _ _ => none
  | .application _ target => some target

def validateTokenExchangePolicies (ownerOrganizationId : Id) (allowedGrantTypes : List GrantType)
    (policies : List TokenExchangePolicy) (resourceScopes : List ResourceScopesConfiguration) :
    Registry (List TokenExchangePolicy) := do
  require (policies.isEmpty ∨ allowedGrantTypes.contains .tokenExchange)
    (badRequest "Only confidential Applications can configure token exchange policies.")
  if policies.isEmpty then return policies
  let resources ← ask (·.findResources (Text.unique (policies.flatMap policyResourceIds)))
  let targets ← collect (Text.unique (policies.filterMap policyTargetId)) fun id =>
    ask (·.findById id)
  require (!hasDuplicates (policies.map policyPair))
    (badRequest "Each token exchange source and target pair must appear only once.")
  Procedure.ofExcept (policies.forM
    (validatePolicy ownerOrganizationId resources targets.reduceOption resourceScopes))
  return policies

structure CreateApplication where
  clientType : ClientType
  visibility : Option Visibility
  ownerOrganizationId : Id
  consentRequired : Option Bool
  redirectUris : List String
  postLogoutRedirectUris : Option (List String)
  corsOrigins : Option (List String)
  resourceScopes : Option (List ResourceScopesConfiguration)
  tokenExchangePolicies : Option (List TokenExchangePolicy)
  deviceLoginEnabled : Option Bool

def consentPolicy : Failure := badRequest
  "User consent policy can be configured only for Applications owned by the platform Organization."

def createApplication (rules : UriRules) (input : CreateApplication) :
    Registry (Application × OAuthClient) := do
  let settings ← Procedure.ofExcept (normalizeClientSettings rules input.clientType
    input.redirectUris (input.deviceLoginEnabled.getD false)
    !(input.tokenExchangePolicies.getD []).isEmpty)
  let postLogoutRedirectUris ← Procedure.ofExcept (normalizePostLogoutRedirectUris rules
    input.clientType (input.postLogoutRedirectUris.getD []))
  let corsOrigins ← Procedure.ofExcept (normalizeCorsOrigins rules (input.corsOrigins.getD []))
  requireActiveOrganization input.ownerOrganizationId
  let platform ← requirePlatformOrganization
  let platformOwned := input.ownerOrganizationId = platform.id
  require (input.consentRequired.isNone ∨ platformOwned) consentPolicy
  let resourceScopes ← validateApplicationResourceScopes input.ownerOrganizationId
    (input.resourceScopes.getD []) []
  let tokenExchangePolicies ← validateTokenExchangePolicies input.ownerOrganizationId
    settings.allowedGrantTypes (input.tokenExchangePolicies.getD []) resourceScopes
  let id ← generateId
  let clientId ← generateId
  let consentRequired := if platformOwned then input.consentRequired.getD true else true
  let application : Application := {
    id := id
    oauthClientId := clientId
    ownerOrganizationId := input.ownerOrganizationId
    visibility := input.visibility.getD .privateResource
    disabled := false
    consentRequired := consentRequired
    oidcScopes := settings.oidcScopes
    resourceScopes := resourceScopes
    corsOrigins := corsOrigins
    tokenExchangePolicies := tokenExchangePolicies }
  let client : OAuthClient := {
    clientId := clientId
    type := input.clientType
    disabled := false
    skipConsent := !consentRequired
    redirectUris := settings.redirectUris
    postLogoutRedirectUris := postLogoutRedirectUris
    grantTypes := settings.allowedGrantTypes
    isPublic := settings.isPublic
    scopes := application.clientScopes }
  commit (.createApplication client application) (Repository.create client application)
  return (application, client)

structure UpdateApplication where
  visibility : Option Visibility
  disabled : Option Bool
  consentRequired : Option Bool
  redirectUris : Option (List String)
  postLogoutRedirectUris : Option (List String)
  corsOrigins : Option (List String)
  resourceScopes : Option (List ResourceScopesConfiguration)
  tokenExchangePolicies : Option (List TokenExchangePolicy)
  deviceLoginEnabled : Option Bool

def requireApplication (id : Id) : Registry (Application × OAuthClient) := do
  let application ← ask (·.findById id)
  orThrow application (notFound "Application was not found.")

/-- The repository's update: it reads the row again and then writes both. -/
def Repository.updateApplication (id : Id) (patch : ApplicationPatch) : Registry Unit := do
  let current ← ask fun s => s.applications.find id
  let current ← orThrow current (notFound "Application was not found.")
  let updated ← commit (.updateApplication id patch current) (Repository.update id patch current)
  if updated then done ()
  else do
    let remaining ← ask fun s => s.applications.find id
    fail (if remaining.isSome then badRequest "Resource Server is not active."
      else notFound "Application was not found.")

def updatedSettings (rules : UriRules) (client : OAuthClient) (input : UpdateApplication)
    (policies : List TokenExchangePolicy) : Except Failure (Option ClientSettings) :=
  if input.redirectUris.isSome ∨ input.deviceLoginEnabled.isSome ∨
      input.tokenExchangePolicies.isSome then
    (normalizeClientSettings rules client.type (input.redirectUris.getD client.redirectUris)
      (input.deviceLoginEnabled.getD (client.grantTypes.contains .deviceCode))
      !policies.isEmpty).map some
  else .ok none

/-- The checks of an update and the columns that it sets. -/
def updatePatch (rules : UriRules) (id : Id) (input : UpdateApplication) :
    Registry ApplicationPatch := do
  let (application, client) ← requireApplication id
  let nextPolicies := input.tokenExchangePolicies.getD application.tokenExchangePolicies
  let settings ← Procedure.ofExcept (updatedSettings rules client input nextPolicies)
  let postLogoutRedirectUris ← Procedure.ofExcept
    (input.postLogoutRedirectUris.mapM (normalizePostLogoutRedirectUris rules client.type))
  let corsOrigins ← Procedure.ofExcept (input.corsOrigins.mapM (normalizeCorsOrigins rules))
  let platform ← requirePlatformOrganization
  let platformOwned := application.ownerOrganizationId = platform.id
  require (input.consentRequired.isNone ∨ platformOwned) consentPolicy
  let resourceScopes ←
    match input.resourceScopes with
    | some configurations =>
      some <$> validateApplicationResourceScopes application.ownerOrganizationId configurations
        (application.resourceScopes.map (·.resourceServerId))
    | none => pure none
  let tokenExchangePolicies ←
    if input.tokenExchangePolicies.isSome ∨ resourceScopes.isSome then
      some <$> validateTokenExchangePolicies application.ownerOrganizationId
        ((settings.map (·.allowedGrantTypes)).getD client.grantTypes) nextPolicies
        (resourceScopes.getD application.resourceScopes)
    else pure none
  return {
    visibility := input.visibility
    disabled := input.disabled
    consentRequired := if platformOwned then input.consentRequired
      else if application.consentRequired then none else some true
    redirectUris := settings.map (·.redirectUris)
    postLogoutRedirectUris := postLogoutRedirectUris
    corsOrigins := corsOrigins
    allowedGrantTypes := settings.map (·.allowedGrantTypes)
    oidcScopes := settings.map (·.oidcScopes)
    resourceScopes := resourceScopes
    tokenExchangePolicies := tokenExchangePolicies }

def updateApplication (rules : UriRules) (id : Id) (input : UpdateApplication) :
    Registry (Application × OAuthClient) := do
  let patch ← updatePatch rules id input
  Repository.updateApplication id patch
  requireApplication id

def getResource (id : Id) : Registry ApiResource := do
  let resource ← ask (·.findResource id)
  orThrow resource (notFound "API resource was not found.")

/-- A resource that turns private is narrowed in the Applications that are read before. -/
def Repository.updateApiResource (id : Id) (patch : UpdateApiResource) : Registry Bool := do
  if patch.visibility ≠ some .privateResource then
    commit (.updateResource id patch []) (Repository.updateResource id patch [])
  else
    let resource ← ask fun s => s.resources.find id
    match resource with
    | none => return false
    | some resource =>
      let applications ← ask (·.applications.rows)
      let writes := confinedWrites id
        (patch.ownerOrganizationId.getD resource.ownerOrganizationId) applications
      commit (.updateResource id patch writes) (Repository.updateResource id patch writes)

def Repository.replaceDiscovery (id : Id) (registry : List ResourceScope) : Registry Bool := do
  let applications ← ask (·.applications.rows)
  let writes := declaredWrites id (registry.map (·.value)) applications
  commit (.replaceResourceDiscovery id registry writes)
    (Repository.replaceResourceDiscovery id registry writes)

def requireNewOwner (ownerOrganizationId : Option Id) : Registry Unit :=
  match ownerOrganizationId.filter (· ≠ "") with
  | some organizationId => do
    let organization ← ask (·.findOrganization organizationId)
    let organization ← orThrow organization (notFound "Organization was not found.")
    require (!organization.disabled) (badRequest "Organization must be active.")
  | none => done ()

def updateResource (d : Discovery) (id : Id) (input : UpdateApiResource) :
    Registry ApiResource := do
  let resource ← getResource id
  require (!resource.isRealmroot) (badRequest "The Realmroot Resource Server is system-managed.")
  Procedure.ofExcept (input.resourceUrl.elim (.ok ()) d.validateResourceUrl)
  requireNewOwner input.ownerOrganizationId
  if resource.authorizationModel = .external then do
    let platform ← requirePlatformOrganization
    require (input.ownerOrganizationId.getD resource.ownerOrganizationId = platform.id)
      (badRequest "External Resource Servers must be owned by the built-in platform Organization.")
  let (patch, registry) ← Procedure.ofExcept (ResourceServers.resourceChanges d resource input)
  let updated ← Repository.updateApiResource id patch
  require (updated = true) (notFound "API resource was not found.")
  if let some registry := registry then do
    let replaced ← Repository.replaceDiscovery id registry
    require (replaced = true) (notFound "API resource was not found.")
  getResource id

def deleteResource (id : Id) : Registry Unit := do
  let resource ← getResource id
  require (!resource.isRealmroot) (badRequest "The Realmroot Resource Server is system-managed.")
  let now ← ask (·.now)
  let active ← ask (·.findResource id)
  require active.isSome (notFound "API resource was not found.")
  let _ ← commit (.deleteResource id now) (Repository.deleteResource id now)

inductive Call where
  | createApplication (rules : UriRules) (input : CreateApplication)
  | updateApplication (rules : UriRules) (id : Id) (input : UpdateApplication)
  | updateResource (d : Discovery) (id : Id) (input : UpdateApiResource)
  | replaceResourceDiscovery (id : Id) (registry : List ResourceScope)
  | deleteResource (id : Id)
  | elapse (milliseconds : ℕ)
  | organizations (rows : List Organization)
  | createResource (row : ApiResource)

inductive Reply where
  | none
  | application (application : Application) (client : OAuthClient)
  | resource (resource : ApiResource)
  | replaced (replaced : Bool)

def Call.program : Call → Registry Reply
  | .createApplication rules input => do
    let (application, client) ← Applications.createApplication rules input
    return .application application client
  | .updateApplication rules id input => do
    let (application, client) ← Applications.updateApplication rules id input
    return .application application client
  | .updateResource d id input => do return .resource (← Applications.updateResource d id input)
  | .replaceResourceDiscovery id registry => do
    return .replaced (← Repository.replaceDiscovery id registry)
  | .deleteResource id => do
    Applications.deleteResource id
    return .none
  | .elapse milliseconds => query (.elapse milliseconds) fun _ => .none
  | .organizations rows => query (.organizations rows) fun _ => .none
  | .createResource row => query (.createResource row) fun _ => .none

abbrev ClientPool := Pool Call Store Operation Failure Reply

end FlareAuth.Applications
