import FlareAuth.AgentAuthority
import FlareAuth.DelegationChains

/-!
# Authentication of a request

A request passes one or more authentication steps. A step either leaves the principal as it is, sets
it from the session, from the token of the `Authorization` header or from the assertion of an Agent,
or refuses the request. What an earlier step has found, a later one takes over.
-/

namespace FlareAuth.Authentication

open Concurrent Procedure Delegation

section Requests

structure AuthSession where
  user : Option Id

structure AgentSession where
  agentId : Id
  hostId : Id

inductive Authorization where
  | dpop (token : PresentedToken)
  | bearer (token : PresentedToken)
  | other

/-- A request with its `Authorization` header, its proof with the verdict on it, and what the
session library answers. -/
structure AuthRequest where
  authorization : Option Authorization
  proof : Option String
  dpop : (confirmationJkt : String) → Except Failure Unit
  session : Except Failure (Option AuthSession)
  agentSession : Option (Except Failure (Option AgentSession))

def AuthRequest.agentTokenRequest (r : AuthRequest) : AgentTokenRequest where
  token := match r.authorization with
    | some (.dpop token) => some token
    | _ => none
  proof := r.proof
  dpop := r.dpop

structure AuthnOptions where
  allowAgent : Bool
  allowApplication : Bool
  oauth : Option OAuthOptions
  required : Bool

structure AuthenticatedApplication extends ApplicationPrincipal where
  clientId : String
  delegatedOrganizationId : Option String

structure PrincipalContext where
  session : Option AuthSession
  user : Option Id
  application : Option AuthenticatedApplication
  agent : Option OAuthAgent

def PrincipalContext.principal (p : PrincipalContext) : Principal where
  user := p.user
  application := p.application.map (·.toApplicationPrincipal)
  agent := p.agent.map fun a => ⟨a.identity.id, a.scopes, a.authority⟩

end Requests

section Applications

def findRepresentedUser (userId : Id) : Delegated User :=
  (getUser userId).tryCatch fun error =>
    match error with
    | .api 404 _ _ _ => fail (forbidden "The OAuth token does not represent an active User.")
    | error => fail error

def representedUser (application : TokenExchange.Application) (subject : Id) :
    Delegated (Option User) :=
  if subject = application.id then return none
  else some <$> findRepresentedUser subject

/-- `authenticateOAuthApplication`, of a token that the verifier has answered. -/
def authenticateApplicationPayload (payload : Json) :
    Delegated (Option (AuthenticatedApplication × Option Id)) := do
  let clientId := nonempty (payload.stringField "client_id")
  if clientId = some realmrootCliClientId then return none
  let missing := unauthorized "OAuth access token is missing its Application binding."
  let subject ← orThrow (nonempty (payload.stringField "sub")) missing
  let clientId ← orThrow clientId missing
  require (payload.field "cnf").isNone
    (unauthorized "OAuth Application access tokens must be unbound Bearer tokens.")
  let application ← onSite (TokenExchange.ask (·.findByClientId clientId))
  let application ← orThrow (application.filter fun a => !a.disabled)
    (forbidden "The OAuth token does not belong to an active Application.")
  let user ← representedUser application subject
  require (user.all fun u => !u.banned)
    (forbidden "The OAuth token does not represent an active User.")
  return some ({
    id := application.id
    ownerOrganizationId := application.ownerOrganizationId
    scopes := scopeClaim payload
    clientId := application.oauthClientId
    delegatedOrganizationId := payload.stringField realmrootOrganizationClaim }, user.map (·.id))

def authenticateOAuthApplication (verifier : TokenVerifier) (oauth : OAuthOptions)
    (request : AuthRequest) : Delegated (Option (AuthenticatedApplication × Option Id)) :=
  match request.authorization with
  | some (.bearer token) =>
    match verifier token oauth.issuer oauth.audience with
    | none => fail (unauthorized "OAuth access token is invalid.")
    | some payload => authenticateApplicationPayload payload
  | _ => return none

end Applications

section Agents

/-- `authenticateAgent`, by the assertion of a protocol Agent. -/
def authenticateAgent (request : AuthRequest) : Delegated (Option OAuthAgent) :=
  match request.agentSession with
  | none => return none
  | some answer => do
    let session ← Procedure.ofExcept answer
    match session with
    | none => return none
    | some session =>
      let active ← look (·.findActiveBinding session.agentId)
      let active ← orThrow (active.filter fun a => a.2.hostId = session.hostId)
        (forbidden "The Agent host is not bound to an active Agent identity.")
      return some {
        issuer := active.1.issuer
        identity := active.1
        binding := active.2
        runtime := none
        sessionId := none
        scopes := []
        authority := none }

end Agents

section Steps

variable (verifier : TokenVerifier) (request : AuthRequest)

def agentOfToken (oauth : OAuthOptions) (current : Option PrincipalContext) :
    Delegated (Option OAuthAgent) :=
  match current.bind (·.agent) with
  | some agent => return some agent
  | none => onSite (TokenExchange.onAccess
      (authenticateOAuthAgent verifier oauth request.agentTokenRequest))

def applicationOfToken (oauth : OAuthOptions) (current : Option PrincipalContext) :
    Delegated (Option (AuthenticatedApplication × Option Id)) :=
  match current.bind fun p => p.application.map fun a => (a, p.user) with
  | some application => return some application
  | none => authenticateOAuthApplication verifier oauth request

def agentPrincipal (agent : OAuthAgent) : PrincipalContext := ⟨none, none, none, some agent⟩

def applicationPrincipal (application : AuthenticatedApplication × Option Id) : PrincipalContext :=
  ⟨none, application.2, some application.1, none⟩

/-- A step for a request with an `Authorization` header. -/
def authnExplicit (options : AuthnOptions) (oauth : OAuthOptions) (authorization : Authorization)
    (current : Option PrincipalContext) : Delegated PrincipalContext := do
  let invalid := unauthorized "OAuth access token is not valid for this resource."
  match authorization with
  | .dpop _ =>
    require options.allowAgent invalid
    let agent ← agentOfToken verifier request oauth current
    agentPrincipal <$> orThrow agent invalid
  | .bearer _ =>
    require options.allowApplication invalid
    let application ← applicationOfToken verifier request oauth current
    applicationPrincipal <$> orThrow application invalid
  | .other => fail invalid

/-- The Agent of a request without an `Authorization` header. -/
def agentOfRequest (options : AuthnOptions) (current : Option PrincipalContext) :
    Delegated (Option OAuthAgent) :=
  if options.allowAgent then
    match options.oauth with
    | some oauth => agentOfToken verifier request oauth current
    | none =>
      match current.bind (·.agent) with
      | some agent => return some agent
      | none => authenticateAgent request
  else return none

/-- The Application of a request without an `Authorization` header. -/
def applicationOfRequest (options : AuthnOptions) (current : Option PrincipalContext) :
    Delegated (Option (AuthenticatedApplication × Option Id)) :=
  match options.oauth with
  | some oauth =>
    if options.allowApplication then applicationOfToken verifier request oauth current
    else return none
  | none => return none

/-- The session, which only the first step asks for. -/
def currentSession (current : Option PrincipalContext) : Delegated (Option AuthSession) :=
  match current with
  | some p => return p.session
  | none => Procedure.ofExcept request.session

def currentUser (session : Option AuthSession) (current : Option PrincipalContext) : Option Id :=
  match current with
  | some p => p.user
  | none => session.bind (·.user)

/-- A step for a request without an `Authorization` header. -/
def authnImplicit (options : AuthnOptions) (current : Option PrincipalContext) :
    Delegated PrincipalContext := do
  let session ← currentSession request current
  let user := currentUser session current
  if user.isSome then return ⟨session, user, none, none⟩
  let agent ← agentOfRequest verifier request options current
  match agent with
  | some agent => return agentPrincipal agent
  | none =>
    let application ← applicationOfRequest verifier request options current
    match application with
    | some application => return applicationPrincipal application
    | none =>
      require (!options.required) (unauthorized "Authentication is required.")
      return ⟨session, none, none, none⟩

def authn (options : AuthnOptions) (current : Option PrincipalContext) :
    Delegated (Option PrincipalContext) :=
  match request.authorization, options.oauth with
  | some authorization, some oauth =>
    some <$> authnExplicit verifier request options oauth authorization current
  | some _, none => return current
  | none, _ => some <$> authnImplicit verifier request options current

/-- The steps that a request passes, one after the other. -/
def authnStack : List AuthnOptions → Option PrincipalContext → Delegated (Option PrincipalContext)
  | [], current => done current
  | options :: rest, current => do
    let current ← authn verifier request options current
    authnStack rest current

end Steps

end FlareAuth.Authentication
