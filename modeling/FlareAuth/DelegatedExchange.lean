import FlareAuth.Concurrent.Pool
import FlareAuth.Concurrent.Unreliable
import FlareAuth.ExchangeProgram

/-!
# Exchanging Realmroot's own access tokens

A client exchanges an access token of a user, or of an Agent that acts for the
user, for a token of another Resource Server, and an Agent's for an ID token.
Any operation may find a fault, and then fails and changes nothing. An exchange
for an Agent appends an audit record.
-/

namespace FlareAuth.Delegation

open Concurrent Procedure TokenExchange

inductive AuditResult where
  | allowed
  | denied
  deriving DecidableEq, Repr

/-- An audit record of an exchange; `metadata` is an object. -/
structure ExchangeAudit where
  id : Id
  action : String
  result : AuditResult
  realmOwned : Bool
  ownerOrganizationId : Option Id
  controllerUserId : Option Id
  subjectIssuer : Option String
  subject : Option String
  agentIdentityId : Option Id
  resourceId : Option Id
  scopes : List String
  reasonCode : Option String
  metadata : Json
  occurredAt : ℕ

/-- The tables of the exchange and the audit records, with the fault that operations find. -/
structure Realm where
  site : Site
  audits : List ExchangeAudit
  fault : Option Failure

/-- `auditing` is an operation of the exchange that the append of an audit record needs. -/
inductive RealmOperation where
  | site (op : SiteOperation)
  | verify
  | sign (payload : Json)
  | auditing (result : AuditResult) (op : SiteOperation)
  | append (record : ExchangeAudit)
  | fault (found : Option Failure)

def Realm.onSite (op : SiteOperation) (r : Realm) : Realm :=
  if r.fault.isNone then { r with site := apply op r.site } else r

def RealmOperation.perform : RealmOperation → Realm → Realm
  | .site op, r => r.onSite op
  | .auditing _ op, r => r.onSite op
  | .append record, r => if r.fault.isNone then { r with audits := r.audits ++ [record] } else r
  | .fault found, r => { r with fault := found }
  | .verify, r => r
  | .sign _, r => r

instance : Operational RealmOperation Realm := ⟨RealmOperation.perform⟩

theorem apply_eq (op : RealmOperation) (r : Realm) : apply op r = op.perform r := rfl

abbrev Delegated := Procedure Realm RealmOperation Failure

variable {α : Type}

def onSite (p : Exchange α) : Delegated α := p.attempt Realm.site .site Realm.fault

def look (answer : Directory → α) : Delegated α := onSite (onAccess (Access.look answer))

def clock : Delegated ℕ := onSite (onAccess Access.clock)

def readString : Option Json → Option String
  | some (.string value) => if value = "" then none else some value
  | _ => none

def readSingleAudience : Option Json → Option String
  | some (.array [item]) => readString (some item)
  | value => readString value

def digit? (c : Char) : Option ℕ := if c.isDigit then some (c.toNat - 48) else none

/-- A number in decimal digits. -/
def natural? : List Char → Option ℕ
  | [] => none
  | cs => (cs.mapM digit?).map (·.foldl (fun n d => 10 * n + d) 0)

/-- A number that is whole; dates have no fraction. -/
def readNumber : Option Json → Option ℤ
  | some (.number text) =>
    match text.text.toList with
    | '-' :: cs => (natural? cs).map fun n => -(n : ℤ)
    | cs => (natural? cs).map fun n => (n : ℤ)
  | _ => none

/-- The value of `isRecord`. -/
def asRecord : Option Json → Option Json
  | some (.object fields) => some (.object fields)
  | _ => none

def parseSpaceSeparatedClaim : Option Json → List String
  | some (.string value) => Text.unique (Text.split value)
  | _ => []

def actorIssuer (claims : Json) : Option String :=
  (asRecord (claims.field "act")).bind fun actor => readString (actor.field "iss")

def actorSubject (claims : Json) : Option String :=
  (asRecord (claims.field "act")).bind fun actor => readString (actor.field "sub")

def readActor (claims : Json) : Option Actor := do
  return ⟨← actorIssuer claims, ← actorSubject claims⟩

/-- A request with a token of Realmroot's own: the token, its audience before it is verified, and
what the verifier answers for an audience, if there is one. -/
structure ExchangeRequest extends TokenExchangeRequest where
  accessToken : AccessToken
  unverifiedAudience : Except Failure (Option String)
  verifier : Option ((audience : String) → Except Failure Json)

structure ExchangedToken extends TokenExchangeResponse where
  issuedTokenType : String

def delegatedUserExpiresInSeconds : ℕ := 5 * 60

def verify (answer : Except Failure Json) : Delegated Json := do
  tryQuery Realm.fault .verify fun _ => ()
  Procedure.ofExcept answer

def sign (payload : Json) : Delegated Json :=
  tryQuery Realm.fault (.sign payload) fun _ => payload

def verifyRealmrootAccessToken (input : ExchangeRequest) : Delegated Json := do
  let verifier ← orThrow input.verifier
    (oauthError "temporarily_unavailable" "Access token verification is unavailable." 503)
  let sourceAudience ← Procedure.ofExcept input.unverifiedAudience
  let sourceAudience ← orThrow sourceAudience
    (oauthError "invalid_grant" "Subject access token audience is invalid.")
  (verify (verifier sourceAudience)).tryCatch fun _ =>
    fail (oauthError "invalid_grant" "Subject access token is invalid.")

def getUser (id : Id) : Delegated User := do
  let user ← look fun d => d.users.find? fun u => u.id = id
  orThrow user (notFound "User not found.")

def requireActiveDelegatedUser (subject : Id) : Delegated Unit :=
  Procedure.tryCatch (do
    let user ← getUser subject
    require (!user.banned)
      (oauthError "invalid_grant" "Subject access token does not represent an active User."))
    fun e => match e with
    | .api 404 _ _ _ =>
      fail (oauthError "invalid_grant" "Subject access token does not represent a User.")
    | e => fail e

/-- The end of a subject token, if it is still to come. -/
def requireUnexpired (exp : ℤ) (description : String) : Delegated ℕ := do
  let now ← clock
  require ((now / 1000 : ℕ) < exp) (oauthError "invalid_grant" description)
  return exp.toNat

/-- What every subject token of Realmroot's own says. -/
structure SubjectClaims where
  subject : Id
  audience : String
  exp : ℤ

def readSubjectClaims (issuer : String) (claims : Json) : Option SubjectClaims := do
  let subject ← readString (claims.field "sub")
  guard (readString (claims.field "iss") = some issuer)
  let audience ← readSingleAudience (claims.field "aud")
  let exp ← (readNumber (claims.field "exp")).filter (· ≠ 0)
  return ⟨subject, audience, exp⟩

def requireSourceAuthority (resourceId : Id) (identity : Option AgentIdentity)
    (lease : Option TokenLease) : Delegated TokenLease := do
  let lease ← orThrow lease
    (oauthError "invalid_grant" "Agent subject token is inactive or revoked.")
  let sourceRequest ← onSite (onAccess (Access.findAccessRequest lease.requestId))
  require (sourceRequest.any fun r =>
      r.resourceId = resourceId ∧ some r.agentIdentityId = identity.map (·.id))
    (oauthError "invalid_grant" "Agent subject token authority does not match its claims.")
  return lease

def findActiveTokenLease (input : ExchangeRequest) : Delegated (Option TokenLease) := do
  let now ← clock
  onSite (onAccess (Access.findActiveTokenLeaseByTokenHash (sha256 input.accessToken) now))

/-- The identity is active, belongs to the controller and has an active binding, which is the
required one if there is one. -/
def requireActiveBinding (identity : Option AgentIdentity) (controllerUserId : Id)
    (requiredBindingId : Option Id) : Delegated Unit := do
  let inactive := oauthError "invalid_grant" "Agent identity or binding is inactive."
  let identity ← orThrow identity inactive
  let aggregate ← look fun d => (d.findIdentity identity.id).map fun i => (i, d.bindingsOf i.id)
  require (aggregate.any fun x =>
      x.1.status = .active ∧ x.1.deletedAt = none ∧ x.1.ownerUserId = controllerUserId ∧
      x.2.any fun b => (requiredBindingId.all fun id => b.id = id) && b.status = .active &&
        b.revokedAt.isNone) inactive

def requireActiveMembership (organization : Option Organization) (membership : Option Member) :
    Delegated Unit :=
  require ((organization.any fun o => !o.disabled) ∧ membership.isSome)
    (oauthError "invalid_grant" "Controller Organization membership is inactive.")

/-- The target of an exchange for an ID token, which the policies of the client's Application
allow from the source. -/
def requireTargetApplication (application : Application) (sourceResourceId : Id)
    (organizationId : Id) (target : Option Application) : Except Failure Application :=
  let allows := fun
    | .application source targetId => source = sourceResourceId ∧ some targetId = target.map (·.id)
    | .resourceServer _ _ _ => False
  if !application.tokenExchangePolicies.any allows then
    .error (oauthError "invalid_target"
      "No token exchange policy allows the requested source and target.")
  else
    match target with
    | some target =>
      if target.disabled ∨ target.visibility ≠ .privateResource ∨
          target.ownerOrganizationId ≠ application.ownerOrganizationId ∨
          target.ownerOrganizationId ≠ organizationId then
        .error (oauthError "invalid_target"
          "Target OIDC Application is not eligible for this exchange.")
      else .ok target
    | none => .error (oauthError "invalid_target"
      "Target OIDC Application is not eligible for this exchange.")

/-- `openid` and `groups`, which the target must have. -/
def requireIdentityScopes (target : Application) (scope : Option String) :
    Except Failure (List String) := do
  let requestedScopes ← normalizeScopes scope ["openid", "groups"]
  if requestedScopes.length ≠ 2 ∨ !requestedScopes.contains "openid" ∨
      !requestedScopes.contains "groups" ∨
      requestedScopes.any fun scope => !target.oidcScopes.contains scope then
    .error (oauthError "invalid_scope"
      "Requested identity scope is unavailable for the target Application.")
  else .ok requestedScopes

structure IdentityTokenInput where
  issuer : String
  subject : String
  audience : String
  clientId : String
  actor : Actor
  groups : List String
  organizationId : Id
  issuedAt : ℕ
  expiresAt : ℕ
  jti : String

def IdentityTokenInput.payload (i : IdentityTokenInput) : Json :=
  .object [("iss", .string i.issuer), ("sub", .string i.subject), ("aud", .string i.audience),
    ("azp", .string i.clientId),
    ("act", .object [("iss", .string i.actor.iss), ("sub", .string i.actor.sub)]),
    ("groups", .array (i.groups.map .string)),
    (realmrootOrganizationClaim, .string i.organizationId),
    ("iat", number (i.issuedAt / 1000)), ("exp", number (i.expiresAt / 1000)),
    ("jti", .string i.jti)]

/-- The claims that an exchange for an ID token reads, all of which must be there. -/
structure AgentSubjectClaims extends SubjectClaims where
  actor : Actor

def readAgentSubjectClaims (issuer : String) (claims : Json) : Option AgentSubjectClaims := do
  let source ← readSubjectClaims issuer claims
  guard (readString (claims.field "jti")).isSome
  guard (readString (claims.field "client_id") = some realmrootCliClientId)
  let actor ← readActor claims
  return { source with actor := actor }

def exchangeAgentIdentityTokenVerified (input : ExchangeRequest) (claims : Json) (clientId : String)
    (application : Application) (issuer : String) : Delegated ExchangedToken := do
  let source ← orThrow (readAgentSubjectClaims issuer claims)
    (oauthError "invalid_grant" "Agent subject token is missing required claims.")
  let exp ← requireUnexpired source.exp "Agent subject token is expired."
  let organizationId ← orThrow (readString (claims.field realmrootOrganizationClaim))
    (oauthError "invalid_grant" "Agent subject token has no Organization context.")
  let sourceResource ← look (·.findResourceByResourceUrl source.audience)
  let target ← onSite (ask (·.findByClientId input.audience))
  let identity ← look (·.findByIssuerSubject source.actor.iss source.actor.sub)
  let lease ← findActiveTokenLease input
  let sourceResource ← orThrow
    (sourceResource.filter fun r => r.activeVisibleToOrganization application.ownerOrganizationId)
    (oauthError "invalid_grant"
      "Agent subject token audience is not eligible for this Application.")
  let target ← Procedure.ofExcept
    (requireTargetApplication application sourceResource.id organizationId target)
  let lease ← requireSourceAuthority sourceResource.id identity lease
  requireActiveBinding identity source.subject (some lease.bindingId)
  requireActiveDelegatedUser source.subject
  let organization ← look (·.findOrganization organizationId)
  let membership ← look (·.findMemberByOrganizationUser organizationId source.subject)
  let groups ← onSite (onAccess (Access.ask .outside fun s =>
    s.world.teamNames organizationId source.subject))
  requireActiveMembership organization membership
  let scopes ← Procedure.ofExcept (requireIdentityScopes target input.scope)
  let now ← clock
  let expiresAt := min (now + delegatedUserExpiresInSeconds * 1000) (exp * 1000)
  let jti ← onSite (onAccess Access.generateId)
  let idToken ← sign (IdentityTokenInput.payload {
    issuer := issuer
    subject := source.subject
    audience := target.oauthClientId
    clientId := clientId
    actor := source.actor
    groups := groups
    organizationId := organizationId
    issuedAt := now
    expiresAt := expiresAt
    jti := jti })
  return {
    accessToken := idToken
    issuedTokenType := idTokenType
    expiresIn := (expiresAt - now) / 1000
    scope := Text.join scopes
    refreshToken := none }

def findScopeMappings (application : Application) (sourceResourceId targetResourceId : Id) :
    Option (List ScopeMapping) :=
  application.tokenExchangePolicies.findSome? fun
    | .resourceServer source target mappings =>
      if source = sourceResourceId ∧ target = targetResourceId then some mappings else none
    | .application _ _ => none

/-- The scopes that a policy makes of the declared scopes of a subject token. -/
def mappedTargetScopes (mappings : List ScopeMapping) (sourceResource : ApiResource)
    (subjectScopes : List String) : List String :=
  (mappings.filter fun m => subjectScopes.contains m.sourceScope &&
    sourceResource.declaredScopes.contains m.sourceScope).map (·.targetScope)

def readOrganization (claims : Json) : Except Failure (Option Id) :=
  match claims.field realmrootOrganizationClaim with
  | none => .ok none
  | some claim =>
    match readString (some claim) with
    | some id => .ok (some id)
    | none => .error (oauthError "invalid_grant"
      "Subject access token Organization claim is invalid.")

def policyStillAuthorizes (sourceApplication : Application) (resourceId : Id)
    (tokenScopes : List String) : Bool :=
  sourceApplication.tokenExchangePolicies.any fun
    | .resourceServer _ target mappings =>
      target == resourceId && tokenScopes.all (mappings.map (·.targetScope)).contains
    | .application _ _ => false

def requireActiveDelegatedAgent (input : ExchangeRequest) (claims : Json)
    (sourceResource : ApiResource) (exchangeApplicationOwnerOrganizationId : Id)
    (controllerUserId : Id) (organizationId : Option Id) : Delegated Actor := do
  let missing := oauthError "invalid_grant" "Agent subject token is missing required claims."
  let actor ← orThrow (readActor claims) missing
  let _sourceTokenId ← orThrow (readString (claims.field "jti")) missing
  let sourceClientId ← orThrow (readString (claims.field "client_id")) missing
  let nativeAgentToken := sourceClientId = realmrootCliClientId
  let identity ← look (·.findByIssuerSubject actor.iss actor.sub)
  let sourceApplication ←
    if nativeAgentToken then pure none else onSite (ask (·.findByClientId sourceClientId))
  let organization ← look fun d => organizationId.bind d.findOrganization
  let membership ← look fun d =>
    organizationId.bind fun id => d.findMemberByOrganizationUser id controllerUserId
  let requiredBindingId ←
    if nativeAgentToken then do
      let lease ← findActiveTokenLease input
      let lease ← requireSourceAuthority sourceResource.id identity lease
      pure (some lease.bindingId)
    else do
      require (sourceApplication.any fun a => !a.disabled &&
          a.ownerOrganizationId = exchangeApplicationOwnerOrganizationId &&
          policyStillAuthorizes a sourceResource.id
            (parseSpaceSeparatedClaim (claims.field "scope")))
        (oauthError "invalid_grant"
          "Delegated Agent subject token authority is no longer active.")
      pure none
  requireActiveBinding identity controllerUserId requiredBindingId
  if organizationId.isSome then requireActiveMembership organization membership
  return actor

def requireDelegatedActor (input : ExchangeRequest) (claims : Json)
    (sourceResource targetResource : ApiResource) (application : Application) (subject : Id)
    (organizationId : Option Id) : Delegated (Option Actor) :=
  match claims.field "act" with
  | none => done none
  | some act => do
    require (asRecord (some act)).isSome
      (oauthError "invalid_grant" "Agent actor claim is invalid.")
    require sourceResource.availableToAgents
      (oauthError "invalid_grant" "Subject access token audience is not available to Agents.")
    require targetResource.availableToAgents
      (oauthError "invalid_target" "Requested audience is not available to Agents.")
    require (targetResource.authorizationModel = .native)
      (oauthError "invalid_target" "Agent delegation requires a native target Resource Server.")
    some <$> requireActiveDelegatedAgent input claims sourceResource
      application.ownerOrganizationId subject organizationId

def exchangeDelegatedUserToken (input : ExchangeRequest) (claims : Json) (clientId : String)
    (application : Application) (issuer : String) : Delegated ExchangedToken := do
  let source ← orThrow (readSubjectClaims issuer claims)
    (oauthError "invalid_grant" "Subject access token is missing required claims.")
  let exp ← requireUnexpired source.exp "Subject access token is expired."
  requireActiveDelegatedUser source.subject
  let sourceResource ← look (·.findResourceByResourceUrl source.audience)
  let targetResource ← look (·.findResourceByResourceUrl input.audience)
  let sourceResource ← orThrow
    (sourceResource.filter fun r => r.activeVisibleToOrganization application.ownerOrganizationId)
    (oauthError "invalid_grant"
      "Subject access token audience is not eligible for this Application.")
  let targetResource ← orThrow
    (targetResource.filter fun r => r.activeVisibleToOrganization application.ownerOrganizationId)
    (oauthError "invalid_target" "Requested audience is not visible to the Application tenant.")
  let mappings ← orThrow (findScopeMappings application sourceResource.id targetResource.id)
    (oauthError "invalid_target" "No token exchange policy allows the requested source and target.")
  let mapped := mappedTargetScopes mappings sourceResource
    (parseSpaceSeparatedClaim (claims.field "scope"))
  let applicationScopes ← onSite
    (resolveApplicationTokenScopesForResource application targetResource input.scope)
  let organizationId ← Procedure.ofExcept (readOrganization claims)
  let actor ← requireDelegatedActor input claims sourceResource targetResource application
    source.subject organizationId
  let now ← clock
  let userScopes ← onSite (onAccess
    (userEffectiveResourceScopes source.subject targetResource now (some organizationId)))
  let scopes := applicationScopes.filter fun scope =>
    mapped.contains scope && userScopes.contains scope
  require (scopes ≠ [] ∧ !scopes.contains "offline_access")
    (oauthError "invalid_scope"
      "Requested delegated scope is unavailable for the target Resource Server.")
  let now ← clock
  let expiresAt := min (now + delegatedUserExpiresInSeconds * 1000) (exp * 1000)
  let jti ← onSite (onAccess Access.generateId)
  let accessToken ← sign (AccessTokenInput.payload {
    issuer := issuer
    clientId := clientId
    subject := source.subject
    audience := input.audience
    scopes := scopes
    organization := organizationId.map .string
    actor := actor
    issuedAt := now
    expiresAt := expiresAt
    jti := jti })
  return {
    accessToken := accessToken
    issuedTokenType := accessTokenType
    expiresIn := (expiresAt - now) / 1000
    scope := Text.join scopes
    refreshToken := none }

/-- An operation that the append of an audit record needs. -/
def auditing (result : AuditResult) (p : Exchange α) : Delegated α :=
  p.attempt Realm.site (.auditing result) Realm.fault

def append (record : ExchangeAudit) : Delegated Unit :=
  tryQuery Realm.fault (.append record) fun _ => ()

def orNull (value : Option String) : Json := value.elim .null .string

structure AuditOutcome where
  result : AuditResult
  reasonCode : Option String
  failureReason : Option String

def allowed : AuditOutcome := ⟨.allowed, none, none⟩

def denied (unexpected : String) : Failure → AuditOutcome
  | .oauth _ error description => ⟨.denied, some error, some description⟩
  | _ => ⟨.denied, some "internal_error", some unexpected⟩

structure IdentityTokenExchangeAuditContext where
  clientId : String
  ownerOrganizationId : Option Id
  controllerUserId : Option Id
  actorIssuer : Option String
  actorSubject : Option String
  sourceTokenId : Option String
  tokenOrganizationId : Option Id
  targetAudience : String

def identityTokenExchangeAuditContext (input : ExchangeRequest) (clientId : String)
    (application : Option Application) (claims : Option Json) :
    IdentityTokenExchangeAuditContext where
  clientId := clientId
  ownerOrganizationId := application.map (·.ownerOrganizationId)
  controllerUserId := claims.bind fun claims => readString (claims.field "sub")
  actorIssuer := claims.bind actorIssuer
  actorSubject := claims.bind actorSubject
  sourceTokenId := claims.bind fun claims => readString (claims.field "jti")
  tokenOrganizationId := claims.bind fun claims =>
    readString (claims.field realmrootOrganizationClaim)
  targetAudience := input.audience

def auditedIdentity (result : AuditResult) (issuer subject : Option String) :
    Delegated (Option AgentIdentity) :=
  match issuer, subject with
  | some issuer, some subject =>
    auditing result (onAccess (Access.look (·.findByIssuerSubject issuer subject)))
  | _, _ => done none

def appendIdentityTokenExchangeAudit (context : IdentityTokenExchangeAuditContext)
    (outcome : AuditOutcome) : Delegated Unit := do
  let identity ← auditedIdentity outcome.result context.actorIssuer context.actorSubject
  let target ← auditing outcome.result (ask (·.findByClientId context.targetAudience))
  let id ← auditing outcome.result (onAccess Access.generateId)
  let now ← auditing outcome.result (onAccess Access.clock)
  append {
    id := id
    action := "oauth.agent_identity_token_exchanged"
    result := outcome.result
    realmOwned := context.ownerOrganizationId.isNone
    ownerOrganizationId := context.ownerOrganizationId
    controllerUserId := context.controllerUserId
    subjectIssuer := context.actorIssuer
    subject := context.actorSubject
    agentIdentityId := identity.map (·.id)
    resourceId := none
    scopes := ["openid", "groups"]
    reasonCode := outcome.reasonCode
    metadata := .object [("exchangeClientId", .string context.clientId),
      ("sourceTokenId", orNull context.sourceTokenId),
      ("tokenOrganizationId", orNull context.tokenOrganizationId),
      ("targetApplicationId", orNull (target.map (·.id))),
      ("targetApplicationClientId", .string context.targetAudience),
      ("failureReason", orNull outcome.failureReason)]
    occurredAt := now }

def appendAgentResourceTokenExchangeAudit (input : ExchangeRequest) (claims : Json)
    (application : Application) (outcome : AuditOutcome) (issuedScopes : Option (List String)) :
    Delegated Unit := do
  let identity ← auditedIdentity outcome.result (actorIssuer claims) (actorSubject claims)
  let target ← auditing outcome.result
    (onAccess (Access.look (·.findResourceByResourceUrl input.audience)))
  let id ← auditing outcome.result (onAccess Access.generateId)
  let now ← auditing outcome.result (onAccess Access.clock)
  append {
    id := id
    action := "oauth.agent_resource_token_exchanged"
    result := outcome.result
    realmOwned := false
    ownerOrganizationId := some application.ownerOrganizationId
    controllerUserId := readString (claims.field "sub")
    subjectIssuer := actorIssuer claims
    subject := actorSubject claims
    agentIdentityId := identity.map (·.id)
    resourceId := target.map (·.id)
    scopes := issuedScopes.getD (parseSpaceSeparatedClaim (input.scope.map .string))
    reasonCode := outcome.reasonCode
    metadata := .object [("exchangeClientId", .string application.oauthClientId),
      ("sourceTokenId", orNull (readString (claims.field "jti"))),
      ("targetAudience", .string input.audience),
      ("failureReason", orNull outcome.failureReason)]
    occurredAt := now }

/-- A part of a `try` block whose `catch` block audits the failure and throws it again. -/
def auditFailure (auditDenied : Failure → Delegated Unit) (p : Delegated α) : Delegated α :=
  p.tryCatch fun e => auditDenied e >>= fun _ => fail e

/-- One `try` block in three parts: what the audit record of a failure knows grows from one to the
next. -/
def exchangeAgentIdentityToken (input : ExchangeRequest) (client : ClientCredentials)
    (issuer : String) : Delegated ExchangedToken := do
  let context := identityTokenExchangeAuditContext input client.clientId
  let auditDenied := fun application claims e => appendIdentityTokenExchangeAudit
    (context application claims) (denied "ID token exchange failed unexpectedly." e)
  let (oauthClient, application) ← auditFailure (auditDenied none none)
    (onSite (authenticateApplicationClient client))
  let claims ← auditFailure (auditDenied (some application) none) do
    require (oauthClient.grantTypes.contains tokenExchangeGrantType)
      (oauthError "unauthorized_client" "Client is not allowed to use token exchange.")
    require (input.subjectTokenType = accessTokenType)
      (oauthError "invalid_request" "ID tokens require an access_token subject token.")
    verifyRealmrootAccessToken input
  auditFailure (auditDenied (some application) (some claims)) do
    let response ← exchangeAgentIdentityTokenVerified input claims oauthClient.clientId
      application issuer
    appendIdentityTokenExchangeAudit (context (some application) (some claims)) allowed
    return response

/-- An exchange of a verified token, which is audited if the token has an actor. -/
def exchangeVerifiedToken (input : ExchangeRequest) (claims : Json) (clientId : String)
    (application : Application) (issuer : String) : Delegated ExchangedToken :=
  let exchange := exchangeDelegatedUserToken input claims clientId application issuer
  if (claims.field "act").isNone then exchange
  else
    let audit := appendAgentResourceTokenExchangeAudit input claims application
    auditFailure (fun e =>
      audit (denied "Agent Resource token exchange failed unexpectedly." e) none) do
    let response ← exchange
    audit allowed (some (parseSpaceSeparatedClaim (some (.string response.scope))))
    return response

def exchangeToken (input : ExchangeRequest) (client : ClientCredentials) (issuer : String) :
    Delegated ExchangedToken := do
  require (input.grantType = tokenExchangeGrantType)
    (oauthError "unsupported_grant_type" "Unsupported grant_type.")
  if input.requestedTokenType = some idTokenType then
    exchangeAgentIdentityToken input client issuer
  else if input.subjectTokenType = accessTokenType then do
    let (oauthClient, application) ← onSite
      (authorizeExchange input.toTokenExchangeRequest client)
    let claims ← verifyRealmrootAccessToken input
    exchangeVerifiedToken input claims oauthClient.clientId application issuer
  else do
    let response ← onSite (exchangeFederatedToken input.toTokenExchangeRequest client issuer)
    return { response with issuedTokenType := accessTokenType }

/-- The other calls are any operations on the tables, one at a time, and the faults. -/
inductive Call where
  | exchangeToken (input : ExchangeRequest) (client : ClientCredentials) (issuer : String)
  | site (op : SiteOperation)
  | fault (found : Option Failure)

def Call.program : Call → Delegated (Option ExchangedToken)
  | .exchangeToken input client issuer => some <$> Delegation.exchangeToken input client issuer
  | .site op => step (.site op) fun _ => done none
  | .fault found => step (.fault found) fun _ => done none

abbrev DelegationPool := Pool Call Realm RealmOperation Failure (Option ExchangedToken)

/-- The states over every interleaving of the calls, from any tables. -/
abbrev DelegationReachable : DelegationPool → Prop :=
  Reachable Call.program (fun _ => True) (Unrestricted _ _ _ _ _)

namespace Sample

/-- The sample Application, which may exchange its own tokens of `notes` for others. -/
def application : Application :=
  { TokenExchange.Sample.application with
    tokenExchangePolicies := [.resourceServer "notes" "notes" [⟨"read", "read"⟩]] }

def realm : Realm where
  site := { TokenExchange.Sample.site with applications := [application] }
  audits := []
  fault := none

/-- The claims of a token of the Agent that acts for the user. -/
def claims : Json :=
  .object [("iss", .string "iss"), ("sub", .string "u"), ("aud", .string "https://notes"),
    ("client_id", .string "app"), ("scope", .string "read"),
    ("act", .object [("iss", .string "iss"), ("sub", .string "sub")]),
    ("exp", .number (.ofNat 100)),
    ("jti", .string "jti")]

def exchange : ExchangeRequest where
  grantType := tokenExchangeGrantType
  subjectToken := TokenExchange.Sample.subjectToken
  subjectTokenType := accessTokenType
  audience := "https://notes"
  scope := some "read"
  requestedTokenType := none
  accessToken := .external "token"
  unverifiedAudience := .ok (some "https://notes")
  verifier := some fun _ => .ok claims

def run (moves : List (Move Call)) : Option DelegationPool :=
  (Pool.initial realm).run Call.program (fun _ _ => true) moves

/-- A pool that a run of the sample reaches, if the run passes a check. -/
theorem reachable_of_run {moves : List (Move Call)} {check : DelegationPool → Bool}
    (h : (run moves).any check = true) :
    ∃ pool : DelegationPool, DelegationReachable pool ∧ check pool = true :=
  Reachable.of_any (fun _ _ _ => trivial) (.initial trivial) h

end Sample

end FlareAuth.Delegation
