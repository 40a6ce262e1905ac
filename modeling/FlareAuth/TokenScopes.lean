import FlareAuth.Applications
import FlareAuth.Concurrent.Command
import FlareAuth.TenantAuthorization

/-!
# Scopes of OAuth access tokens

Before a token is signed, the requested scopes are attenuated to what the
Application may ask for, the registry declares, the principal holds in the
selected Context and the user has consented to. The claims builder selects the
Context a second time. A user always has an identifier.
-/

namespace FlareAuth.AccessTokens

open Concurrent Relational Command
open Applications (Application)

/-- `userConfigurableApplicationScopes`. -/
def oidcScopes : List String := ["openid", "profile", "email", "groups", "offline_access"]

inductive AuthorizationSource where
  | userConsent
  | platformPolicy
  deriving DecidableEq

structure ApplicationConsent where
  id : Id
  applicationId : Id
  userId : Id
  resourceServerId : Option Id
  scopes : List String
  authorizationSource : AuthorizationSource
  grantedAt : ℕ
  revokedAt : Option ℕ

structure TeamMember where
  organizationId : Id
  userId : Id
  name : String

structure State where
  access : Store
  applications : Keyed Application.id
  consents : List ApplicationConsent
  teamMembers : List TeamMember
  generated : ℕ

namespace State

def findApplication (s : State) (id : Option Id) : Option Application :=
  (id.filter (· ≠ "")).bind s.applications.find

def findConsent (s : State) (applicationId userId resourceServerId : Id) :
    Option ApplicationConsent :=
  ((s.consents.filter fun c =>
    c.applicationId = applicationId ∧ c.userId = userId ∧
      c.resourceServerId = some resourceServerId ∧ c.authorizationSource = .userConsent ∧
      c.revokedAt = none).insertionSort fun c d => d.grantedAt ≤ c.grantedAt).head?

def listTeamNamesForUser (s : State) (organizationId userId : Id) : List String :=
  Text.sort ((s.teamMembers.filter fun m =>
    m.organizationId = organizationId ∧ m.userId = userId).map (·.name))

/-- `recordPolicyAuthorization`: the scopes join those of the authorization there is. -/
def recordPolicyAuthorization (s : State) (applicationId userId : Id)
    (resourceServerId : Option Id) (scopes : List String) : State :=
  let merged := fun earlier : List String => Text.sort (Text.unique (earlier ++ scopes))
  match s.consents.find? fun c => c.applicationId = applicationId ∧ c.userId = userId ∧
      c.resourceServerId = resourceServerId ∧ c.revokedAt = none with
  | some existing => { s with
      consents := updateWhere (fun c => c.id = existing.id)
        (fun c => { c with scopes := merged existing.scopes, grantedAt := s.access.now })
        s.consents }
  | none => { s with
      consents := s.consents ++ [⟨"consent-" ++ toString s.generated, applicationId, userId,
        resourceServerId, merged [], .platformPolicy, s.access.now, none⟩]
      generated := s.generated + 1 }

end State

abbrev Tokens := Command State Failure

def look {α : Type} (answer : Directory → α) : Tokens α := read fun s => answer s.access.directory

def onAccess {α : Type} (p : Access α) : Tokens α := fun s =>
  ((p.exec s.access).1, { s with access := (p.exec s.access).2 })

def clock : Tokens ℕ := read (·.access.now)

/-- What the token endpoint hands over: the metadata of the client names the Application. -/
structure TokenRequest where
  user : Option Id
  scopes : List String
  resource : Option String
  referenceId : Option String
  applicationId : Option Id
  grantType : Option String

namespace TokenRequest

variable (r : TokenRequest)

/-- The resource, unless it is missing or empty. -/
def target : Option String := r.resource.filter (· ≠ "")

def requestedOidcScopes : List String := r.scopes.filter oidcScopes.contains

def requestedResourceScopes : List String := r.scopes.filter fun scope => !oidcScopes.contains scope

def contextError : String :=
  if r.grantType = some "refresh_token" then "invalid_grant" else "access_denied"

/-- A grant whose scopes may belong to several resources. -/
def interactive : Bool :=
  r.grantType == some "authorization_code" || r.grantType == some "refresh_token"

def selectsUser : Bool := r.referenceId.any fun id => "user:".toList.isPrefixOf id.toList

def selectedOrganizationId : Option Id :=
  (r.referenceId.map fun id =>
    if "organization:".toList.isPrefixOf id.toList then
      String.ofList (id.toList.drop "organization:".length)
    else id).filter (· ≠ "")

end TokenRequest

def requireMembership (organizationId userId : Id) (error description : String) : Tokens Unit := do
  let organization ← look (·.findOrganization organizationId)
  let membership ← look (·.findMemberByOrganizationUser organizationId userId)
  require (organization.any (fun o => !o.disabled) = true ∧ membership.isSome)
    (oauthError error description)

def privateApplication (application : Option Application) : Option Application :=
  application.filter fun a => a.visibility = .privateResource

/-- The Context of a user that neither the reference nor a private Application selects. -/
def resolveResourceOrganizationId (userId : Id) (error : String) :
    Option String → Tokens (Option Id)
  | none => pure none
  | some url => do
    let resource ← look (·.findResourceByResourceUrl url)
    match resource.filter fun resource => resource.visibility = .privateResource with
    | none => return none
    | some resource =>
      requireMembership resource.ownerOrganizationId userId error
        "The Resource Server authorization Context is no longer available."
      return some resource.ownerOrganizationId

def resolveUserOrganizationId (r : TokenRequest) (application : Option Application) (error : String)
    (userId : Id) : Tokens (Option Id) :=
  if r.selectsUser then do
    require (r.referenceId = some ("user:" ++ userId) ∧ privateApplication application = none)
      (oauthError error "The selected authorization Context is invalid.")
    return none
  else
    match r.selectedOrganizationId, privateApplication application with
    | some organizationId, privately => do
      require (privately.all (fun a => organizationId = a.ownerOrganizationId) = true)
        (oauthError error "The selected authorization Context is unavailable.")
      requireMembership organizationId userId error
        "The selected authorization Context is no longer available."
      return some organizationId
    | none, some a => do
      requireMembership a.ownerOrganizationId userId error
        "The Application authorization Context is no longer available."
      return some a.ownerOrganizationId
    | none, none => resolveResourceOrganizationId userId error r.target

def resolveOAuthOrganizationId (r : TokenRequest) (application : Option Application)
    (error : String) : Tokens (Option Id) :=
  match r.user with
  | none => pure none
  | some userId => resolveUserOrganizationId r application error userId

def applicationUserHasAccess (application : Application) (userId : Id) : Tokens Bool := do
  let organization ← look (·.findOrganization application.ownerOrganizationId)
  if organization.all (·.disabled) then return false
  else if application.visibility = .publicResource then return true
  else
    let membership ← look (·.findMemberByOrganizationUser application.ownerOrganizationId userId)
    return membership.isSome

def requireApplicationUserAccess (application : Application) (userId : Id) (error : String) :
    Tokens Unit := do
  let access ← applicationUserHasAccess application userId
  require (access = true) (oauthError error "The Application is unavailable to this user.")

def configuredScopes (application : Application) (resource : ApiResource) : List String :=
  ((application.resourceScopes.find? fun item => item.resourceServerId = resource.id).map
    (·.scopes)).getD []

def targetResourceScopes (r : TokenRequest) (application : Application) (resource : ApiResource) :
    List String :=
  r.requestedResourceScopes.filter fun scope =>
    (configuredScopes application resource).contains scope && resource.declaredScopes.contains scope

def visibleToPrincipal (r : TokenRequest) (application : Application) (resource : ApiResource)
    (tenant : Option Id) : Bool :=
  if r.user.isSome then
    resource.visibility == .publicResource || tenant == some resource.ownerOrganizationId
  else resource.visibleToOrganization application.ownerOrganizationId

def consentedScopes (application : Application) (userId : Id) (resource : ApiResource)
    (targets : List String) : Tokens (List String) :=
  if application.consentRequired then do
    let consent ← read (·.findConsent application.id userId resource.id)
    return (consent.map (·.scopes)).getD []
  else pure targets

def recordPolicy (application : Application) (userId : Id) (resourceServerId : Option Id)
    (scopes : List String) : Tokens Unit :=
  if application.consentRequired then pure ()
  else modify fun s => s.recordPolicyAuthorization application.id userId resourceServerId scopes

def filterIdentityScopes (r : TokenRequest) (application : Application) : Tokens (List String) := do
  require (r.requestedResourceScopes = [])
    (oauthError "invalid_scope" "Resource scopes require one registered Resource Server target.")
  match r.user with
  | none => return []
  | some userId =>
    recordPolicy application userId none r.requestedOidcScopes
    return r.requestedOidcScopes

def filterUserScopes (r : TokenRequest) (application : Application) (resource : ApiResource)
    (tenant : Option Id) (userId : Id) : Tokens (List String) := do
  let now ← clock
  let targets := targetResourceScopes r application resource
  let effective ← onAccess (userEffectiveResourceScopes userId resource now (some tenant))
  let consented ← consentedScopes application userId resource targets
  let authorized := r.requestedOidcScopes ++
    targets.filter fun scope => effective.contains scope && consented.contains scope
  recordPolicy application userId (some resource.id) authorized
  return authorized

def filterApplicationScopes (r : TokenRequest) (application : Application)
    (resource : ApiResource) : Tokens (List String) := do
  let now ← clock
  let effective ← onAccess (applicationEffectiveResourceScopes application.id
    application.ownerOrganizationId resource now)
  return (targetResourceScopes r application resource).filter effective.contains

def filterResourceScopes (r : TokenRequest) (application : Application) (url : String) :
    Tokens (List String) := do
  let found ← look (·.findResourceByResourceUrl url)
  let resource ← orThrow (found.filter fun resource =>
      resource.enabled && resource.scopeRegistry.isSome)
    (oauthError "invalid_target" "Requested Resource Server is not active.")
  let tenant ← resolveOAuthOrganizationId r (some application) r.contextError
  require (visibleToPrincipal r application resource tenant = true)
    (oauthError "invalid_target" "Requested Resource Server is not visible to this principal.")
  require (r.interactive = true ∨
      (targetResourceScopes r application resource).length = r.requestedResourceScopes.length)
    (oauthError "invalid_scope" "Requested Resource Server scope is not allowed for this client.")
  match r.user with
  | none => filterApplicationScopes r application resource
  | some userId => filterUserScopes r application resource tenant userId

def filterScopes (r : TokenRequest) (application : Application) : Tokens (List String) := do
  match r.user with
  | none => pure ()
  | some userId => requireApplicationUserAccess application userId r.contextError
  require (∀ scope ∈ r.requestedOidcScopes, scope ∈ application.oidcScopes)
    (oauthError "invalid_scope" "Requested OIDC scope is not allowed for this client.")
  match r.target with
  | none => filterIdentityScopes r application
  | some url => filterResourceScopes r application url

def filterOAuthAccessTokenScopes (r : TokenRequest) : Tokens (List String) := do
  let application ← read (·.findApplication r.applicationId)
  match application.filter fun application => !application.disabled with
  | none => return []
  | some application => filterScopes r application

structure AuthorizationClaim where
  scopes : List String
  groups : List String
  roles : List String
  organizationId : Option Id
  resource : Option String
  audience : Option String

structure TokenClaims where
  authorization : AuthorizationClaim
  groups : List String
  roles : List String

structure RoleAuthorization where
  roles : List String
  scopes : List String

structure TokenClaimInput where
  userId : Option Id
  organizationId : Option Id
  resource : Option String
  scopes : List String
  authorizedScopes : Option (List String)

/-- `toTokenClaims` without a selection of claims. -/
def toTokenClaims (organizationId : Option Id) (requested groups : List String)
    (role : Option RoleAuthorization) (resource : Option ApiResource) : TokenClaims :=
  let roles := Text.unique (role.elim [] (·.roles))
  let scopes := role.elim requested fun role => requested.filter role.scopes.contains
  ⟨⟨scopes, Text.unique groups, roles, organizationId, resource.map (·.identifier),
    resource.map (·.resourceUrl)⟩, Text.unique groups, roles⟩

def membershipAuthorization (input : TokenClaimInput) (resource : Option ApiResource)
    (organizationId userId : Id) : Tokens (RoleAuthorization × List String) := do
  let found ← look (·.findMemberByOrganizationUser organizationId userId)
  let membership ← orThrow found
    (forbidden "User is not a member of the active Organization context.")
  let scopes ← match resource, input.authorizedScopes with
    | none, _ => pure []
    | some _, some authorized => pure authorized
    | some resource, none =>
      onAccess (resolveOrganizationMembershipScopes organizationId membership.roles resource.id)
  let groups ← read (·.listTeamNamesForUser organizationId userId)
  return (⟨membership.roles, scopes⟩, groups)

def authorizedClaims (input : TokenClaimInput) (resource : Option ApiResource) :
    Tokens TokenClaims := do
  let membership ← match input.userId, input.organizationId with
    | some userId, some organizationId =>
      some <$> membershipAuthorization input resource organizationId userId
    | _, _ => pure none
  let role := membership.map (·.1)
  let groups := membership.elim [] (·.2)
  let hidden := match resource, input.organizationId with
    | some resource, some organizationId => !resource.activeVisibleToOrganization organizationId
    | _, _ => false
  return toTokenClaims input.organizationId (if hidden then [] else input.scopes)
    groups role resource

def buildTokenClaims (input : TokenClaimInput) : Tokens TokenClaims :=
  match input.resource.filter (· ≠ "") with
  | none => authorizedClaims input none
  | some url => do
    let resource ← look (·.findResourceByResourceUrl url)
    match resource with
    | none => return toTokenClaims input.organizationId input.scopes [] (some ⟨[], []⟩) none
    | some resource => authorizedClaims input (some resource)

/-- The claims added to a token: the authorization claim is taken out again. -/
structure AccessTokenClaims where
  roles : List String
  groups : Option (List String)
  organization : Option Id

def buildOAuthAccessTokenClaims (r : TokenRequest) : Tokens AccessTokenClaims := do
  let application ← read (·.findApplication r.applicationId)
  let tenant ← resolveOAuthOrganizationId r application "access_denied"
  let organizationId := match r.user, tenant with
    | none, none => application.map (·.ownerOrganizationId)
    | _, tenant => tenant
  let claims ← buildTokenClaims ⟨r.user, organizationId, r.resource, r.scopes,
    some r.requestedResourceScopes⟩
  return ⟨claims.roles, if tenant.isSome ∧ r.user.isSome then some claims.groups else none,
    organizationId⟩

/-- What the token endpoint issues. The refresh token keeps the scopes of the grant. -/
structure UserTokens where
  accessTokenScopes : List String
  refreshTokenScopes : List String

/-- `createUserTokens`, as far as scopes go. -/
def createUserTokens (r : TokenRequest) : Tokens UserTokens := do
  let filtered ← filterOAuthAccessTokenScopes r
  return ⟨r.scopes.filter filtered.contains, r.scopes⟩

end FlareAuth.AccessTokens
