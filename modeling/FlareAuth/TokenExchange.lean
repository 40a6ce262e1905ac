import FlareAuth.ExchangeStore
import FlareAuth.ExternalAuthorization

/-!
# Exchanging and refreshing tokens

An Application's client exchanges a subject token of a trusted issuer for an
access token, with a refresh token if it may, and redeems refresh tokens. How a
subject token is decoded and its signature verified, and the keys that takes,
come from outside. Numeric dates are whole seconds.
-/

namespace FlareAuth.TokenExchange

open Concurrent Procedure Access

def tokenExchangeGrantType : String := "urn:ietf:params:oauth:grant-type:token-exchange"

def refreshTokenGrantType : String := "refresh_token"

def accessTokenType : String := "urn:ietf:params:oauth:token-type:access_token"

def idTokenType : String := "urn:ietf:params:oauth:token-type:id_token"

def jwtTokenType : String := "urn:ietf:params:oauth:token-type:jwt"

def realmrootOrganizationClaim : String := "urn:realmroot:params:oauth:org"

def defaultExpiresInSeconds : ℕ := 60 * 60

def defaultRefreshExpiresInSeconds : ℕ := 30 * 24 * 60 * 60

def refreshTokenPrefix : String := "fatr_"

structure ClientCredentials where
  clientId : String
  clientSecret : Option String

def invalidClient (description : String) : Failure := oauthError "invalid_client" description 401

def authenticateApplicationClient (c : ClientCredentials) :
    Exchange (OAuthClient × Application) := do
  let secret ← orThrow (c.clientSecret.filter fun secret => c.clientId ≠ "" ∧ secret ≠ "")
    (invalidClient "Client authentication is required.")
  let client ← ask (·.findClient c.clientId)
  let application ← ask (·.findByClientId c.clientId)
  let client ← orThrow (client.filter fun client => !client.disabled)
    (invalidClient "Invalid client credentials.")
  let application ← orThrow (application.filter fun a => !a.disabled)
    (invalidClient "Invalid client credentials.")
  let organization ← onAccess (look (·.findOrganization application.ownerOrganizationId))
  require (organization.any fun o => !o.disabled) (invalidClient "Invalid client credentials.")
  require (client.clientSecret = some (sha256 secret)) (invalidClient "Invalid client credentials.")
  return (client, application)

/-- `scopes` of a request, each of which must be allowed. -/
def normalizeScopes (scope : Option String) (allowedScopes : List String) :
    Except Failure (List String) :=
  let scopes := Text.unique (Text.split (scope.getD ""))
  match scopes.find? fun item => !allowedScopes.contains item with
  | some item => .error (oauthError "invalid_scope" ("Scope is not allowed: " ++ item))
  | none => .ok scopes

def resolveApplicationTokenScopesForResource (application : Application) (resource : ApiResource)
    (requestedScope : Option String) : Exchange (List String) := do
  let configuredScopes := ((application.resourceScopes.find? fun c =>
    c.resourceServerId = resource.id).map (·.scopes)).getD []
  let requestedScopes ← Procedure.ofExcept
    (normalizeScopes requestedScope (application.oidcScopes ++ configuredScopes))
  let now ← onAccess clock
  let effectiveScopes ← onAccess (applicationEffectiveResourceScopes application.id
    application.ownerOrganizationId resource now)
  return requestedScopes.filter fun scope =>
    application.oidcScopes.contains scope || effectiveScopes.contains scope

def resolveApplicationTokenScopes (application : Application) (audience : String)
    (requestedScope : Option String) : Exchange (List String) := do
  let found ← onAccess (look (·.findResourceByResourceUrl audience))
  let resource ← orThrow
    (found.filter fun r => r.activeVisibleToOrganization application.ownerOrganizationId)
    (oauthError "invalid_target" "Requested audience is not visible to the Application tenant.")
  resolveApplicationTokenScopesForResource application resource requestedScope

def isEligibleAudience (audience : String) (organizationId : Id) : Exchange Bool := do
  let resource ← onAccess (look (·.findResourceByResourceUrl audience))
  return resource.any fun r => r.activeVisibleToOrganization organizationId

def requireEligibleAudience (audience : String) (organizationId : Id) : Exchange Unit := do
  let eligible ← isEligibleAudience audience organizationId
  require eligible
    (oauthError "invalid_target" "Requested audience is not eligible for the Application tenant.")

/-- A pattern that ends in `*` stands for every subject with what is before it in front. -/
def subjectMatches (pattern subject : String) : Bool :=
  if pattern.endsWith "*" then subject.startsWith (pattern.dropEnd 1).toString
  else pattern == subject

def resolveCredential (applicationClientId issuer subject : String) :
    Exchange ResolvedFederatedCredential := do
  let candidates ← ask (·.findFederatedCredentials applicationClientId issuer)
  orThrow (candidates.find? fun c => c.enabled && subjectMatches c.subject subject)
    (oauthError "invalid_grant" "No federated credential matches the subject token.")

/-- The claims of a decoded subject token that the exchange reads. -/
structure Assertion where
  issuer : Option String
  subject : Option String
  exp : Option ℕ
  nbf : Presence ℕ
  audience : List String

/-- A subject token: what decoding it gives, and what verifying its signature with the keys of a
credential answers. -/
structure SubjectToken where
  assertion : Except Failure Assertion
  signature : (credentialId : Id) → Except Failure Unit

def Presence.isMalformed {α : Type} : Presence α → Bool
  | .malformed => true
  | _ => false

def Presence.value? {α : Type} : Presence α → Option α
  | .value a => some a
  | _ => none

def verifySubjectToken (token : SubjectToken) (assertion : Assertion)
    (credential : ResolvedFederatedCredential) : Exchange ℕ := do
  let now := (← onAccess clock) / 1000
  let exp ← orThrow (assertion.exp.filter fun exp => now < exp)
    (oauthError "invalid_grant" "Subject token is expired or missing an exp claim.")
  require (!Presence.isMalformed assertion.nbf)
    (oauthError "invalid_grant" "Subject token nbf claim is invalid.")
  require ((Presence.value? assertion.nbf).all fun nbf => nbf ≤ now)
    (oauthError "invalid_grant" "Subject token is not active yet.")
  require (assertion.audience.contains credential.audience)
    (oauthError "invalid_grant" "Subject token audience is invalid.")
  Procedure.ofExcept (token.signature credential.id)
  return exp

structure TokenExchangeRequest where
  grantType : String
  subjectToken : SubjectToken
  subjectTokenType : String
  audience : String
  scope : Option String
  requestedTokenType : Option String

structure TokenExchangeResponse where
  accessToken : Json
  expiresIn : ℕ
  scope : String
  refreshToken : Option String

/-- The issuer and the claims of the signer. -/
structure AccessTokenInput where
  issuer : String
  clientId : String
  subject : String
  audience : String
  scopes : List String
  organization : Option Json
  actor : Option Actor
  issuedAt : ℕ
  expiresAt : ℕ
  jti : String

def number (n : ℕ) : Json := .number (.ofNat n)

/-- The payload that `issueJwtAccessToken` signs. -/
def AccessTokenInput.payload (i : AccessTokenInput) : Json :=
  .object ([("iss", .string i.issuer), ("sub", .string i.subject), ("aud", .string i.audience),
      ("client_id", .string i.clientId), ("scope", .string (Text.join i.scopes))] ++
    (i.organization.map fun o => (realmrootOrganizationClaim, o)).toList ++
    (i.actor.map fun a =>
      ("act", Json.object [("iss", .string a.iss), ("sub", .string a.sub)])).toList ++
    [("iat", number (i.issuedAt / 1000)), ("exp", number (i.expiresAt / 1000)),
      ("jti", .string i.jti)])

/-- What comes before the kinds of subject tokens are told apart. -/
def authorizeExchange (input : TokenExchangeRequest) (client : ClientCredentials) :
    Exchange (OAuthClient × Application) := do
  require (input.grantType = tokenExchangeGrantType)
    (oauthError "unsupported_grant_type" "Unsupported grant_type.")
  let (oauthClient, application) ← authenticateApplicationClient client
  require (oauthClient.grantTypes.contains tokenExchangeGrantType)
    (oauthError "unauthorized_client" "Client is not allowed to use token exchange.")
  require (input.requestedTokenType.all fun t => t = "" ∨ t = accessTokenType)
    (oauthError "invalid_request" "Unsupported requested_token_type.")
  return (oauthClient, application)

def prepareRefreshToken (familyId : Id) (parentId : Option Id) (grant : TokenGrant) :
    Exchange (String × RefreshTokenRow) := do
  let random ← onAccess generateId
  let now ← onAccess clock
  let id ← onAccess generateId
  let token := refreshTokenPrefix ++ random
  return (token, {
    id := id
    familyId := familyId
    parentId := parentId
    tokenHash := sha256 token
    grant := grant
    expiresAt := now + defaultRefreshExpiresInSeconds * 1000
    consumedAt := none
    revokedAt := none })

/-- The insert of a refresh token, taken back if its family was revoked. -/
def storeRefreshToken (input : RefreshTokenRow) : Exchange Bool := do
  commit (.insertRefreshToken input) (Repository.insertRefreshToken input)
  let revokedFamily ← ask fun s =>
    s.refreshTokens.any fun t => t.familyId == input.familyId && t.revokedAt.isSome
  if revokedFamily then
    let now ← onAccess clock
    commit (.revokeRefreshToken input.id now)
      (Repository.revokeRefreshTokens (fun t => t.id == input.id) now)
    return false
  else return true

def issueRefreshToken (familyId : Id) (grant : TokenGrant) : Exchange String := do
  let (token, record) ← prepareRefreshToken familyId none grant
  let stored ← storeRefreshToken record
  require stored (oauthError "invalid_grant" "Refresh token family was revoked.")
  return token

/-- The trust of an exchange: the credential of the subject token and the scopes granted to it. -/
def resolveExchange (input : TokenExchangeRequest) (oauthClient : OAuthClient)
    (application : Application) :
    Exchange (ResolvedFederatedCredential × String × List String × ℕ) := do
  let assertion ← Procedure.ofExcept input.subjectToken.assertion
  let missing := oauthError "invalid_grant" "Subject token is missing required claims."
  let issuer ← orThrow assertion.issuer missing
  let subject ← orThrow assertion.subject missing
  let credential ← resolveCredential oauthClient.clientId issuer subject
  require (credential.ownerOrganizationId = application.ownerOrganizationId)
    (oauthError "invalid_grant" "Federated credential is outside the Application Organization.")
  require (credential.audience = input.audience)
    (oauthError "invalid_target" "Requested audience does not match the federated credential.")
  requireEligibleAudience credential.audience credential.ownerOrganizationId
  let scopes ← resolveApplicationTokenScopes application input.audience input.scope
  require (!scopes.contains "offline_access" ∨
      oauthClient.grantTypes.contains refreshTokenGrantType)
    (oauthError "invalid_scope" "Client is not allowed to issue refresh tokens.")
  let exp ← verifySubjectToken input.subjectToken assertion credential
  return (credential, subject, scopes, exp)

/-- What `exchangeToken` does with a subject token of a federated issuer. An exchange of a token of
Realmroot's own stores no token and is not this procedure. -/
def exchangeFederatedToken (input : TokenExchangeRequest) (client : ClientCredentials)
    (issuer : String) :
    Exchange TokenExchangeResponse := do
  let (oauthClient, application) ← authorizeExchange input client
  require (input.subjectTokenType = jwtTokenType)
    (oauthError "invalid_request" "Unsupported subject_token_type.")
  let (credential, subject, scopes, exp) ← resolveExchange input oauthClient application
  let now ← onAccess clock
  let expiresAt := min (now + defaultExpiresInSeconds * 1000) (exp * 1000)
  let organization := Json.string credential.ownerOrganizationId
  let grant : TokenGrant := {
    clientId := oauthClient.clientId
    credentialId := credential.id
    subject := subject
    subjectTokenIssuer := credential.issuer
    audience := credential.audience
    scopes := scopes
    claims := .object [(realmrootOrganizationClaim, organization)] }
  let jti ← onAccess generateId
  let accessToken := AccessTokenInput.payload {
    issuer := issuer
    clientId := oauthClient.clientId
    subject := subject
    audience := credential.audience
    scopes := scopes
    organization := some organization
    actor := none
    issuedAt := now
    expiresAt := expiresAt
    jti := jti }
  let id ← onAccess generateId
  let row : AccessTokenRow := ⟨id, sha256 accessToken, grant, expiresAt, none⟩
  commit (.storeAccessToken row) (Repository.insertAccessToken row)
  let refreshToken ←
    if scopes.contains "offline_access" then do
      let familyId ← onAccess generateId
      some <$> issueRefreshToken familyId grant
    else pure none
  return ⟨accessToken, (expiresAt - now) / 1000, Text.join scopes, refreshToken⟩

structure TokenRefreshRequest where
  grantType : String
  refreshToken : String
  scope : Option String

def revokeRefreshTokenFamily (familyId : Id) (now : ℕ) : Exchange Unit :=
  commit (.revokeRefreshTokenFamily familyId now)
    (Repository.revokeRefreshTokens (fun t => t.familyId == familyId && t.revokedAt.isNone) now)

def findPresentedToken (input : TokenRefreshRequest) (client : ClientCredentials) :
    Exchange (OAuthClient × Application × RefreshTokenRow × ℕ) := do
  require (input.grantType = refreshTokenGrantType)
    (oauthError "unsupported_grant_type" "Unsupported grant_type.")
  let (oauthClient, _) ← authenticateApplicationClient client
  let found ← ask (·.findByClientId oauthClient.clientId)
  let application ← orThrow (found.filter fun a => !a.disabled)
    (oauthError "unauthorized_client" "Application is not active.")
  require (oauthClient.grantTypes.contains refreshTokenGrantType)
    (oauthError "unauthorized_client" "Client is not allowed to use refresh tokens.")
  let found ← ask (·.findRefreshTokenByHash (sha256 input.refreshToken))
  let row ← orThrow (found.filter fun t => t.grant.clientId = oauthClient.clientId)
    (oauthError "invalid_grant" "Refresh token is invalid.")
  let now ← onAccess clock
  return (oauthClient, application, row, now)

def eligibleCredential (row : RefreshTokenRow) (clientId : String) : Exchange Bool := do
  let found ← ask (·.findFederatedCredentialForClient row.grant.credentialId clientId)
  let credential ← orThrow (found.filter (·.enabled))
    (oauthError "invalid_grant" "The federated credential is no longer active.")
  if credential.audience ≠ row.grant.audience ∨
      row.grant.claims.field realmrootOrganizationClaim ≠
        some (.string credential.ownerOrganizationId) then return false
  else isEligibleAudience credential.audience credential.ownerOrganizationId

def prepareRotation (row : RefreshTokenRow) (clientId issuer : String) (scopes : List String)
    (now : ℕ) : Exchange (String × Json × Rotation) := do
  let expiresAt := now + defaultExpiresInSeconds * 1000
  let grant := { row.grant with clientId := clientId, scopes := scopes }
  let jti ← onAccess generateId
  let accessToken := AccessTokenInput.payload {
    issuer := issuer
    clientId := clientId
    subject := row.grant.subject
    audience := row.grant.audience
    scopes := scopes
    organization := row.grant.claims.field realmrootOrganizationClaim
    actor := none
    issuedAt := now
    expiresAt := expiresAt
    jti := jti }
  let (token, record) ← prepareRefreshToken row.familyId (some row.id) grant
  let id ← onAccess generateId
  let rotatedAt ← onAccess clock
  return (token, accessToken,
    { refreshToken := record
      accessToken := ⟨id, sha256 accessToken, grant, expiresAt, none⟩
      now := rotatedAt })

def refreshToken (input : TokenRefreshRequest) (client : ClientCredentials) (issuer : String) :
    Exchange TokenExchangeResponse := do
  let (oauthClient, application, row, now) ← findPresentedToken input client
  if row.consumedAt.isSome then do
    revokeRefreshTokenFamily row.familyId now
    fail (oauthError "invalid_grant" "Refresh token reuse was detected.")
  else
    require (row.revokedAt.isNone ∧ now < row.expiresAt)
      (oauthError "invalid_grant" "Refresh token is invalid or expired.")
    let eligible ← eligibleCredential row oauthClient.clientId
    if !eligible then do
      revokeRefreshTokenFamily row.familyId now
      fail (oauthError "invalid_grant"
        "The refresh token tenant or audience is no longer eligible.")
    else
      let scopes ← resolveApplicationTokenScopes application row.grant.audience
        (some (input.scope.getD (Text.join row.grant.scopes)))
      let (token, accessToken, rotation) ← prepareRotation row oauthClient.clientId
        issuer scopes now
      let stored ← commit (.rotateRefreshToken rotation) (Repository.rotateRefreshToken rotation)
      if stored then
        return ⟨accessToken, defaultExpiresInSeconds, Text.join scopes, some token⟩
      else do
        revokeRefreshTokenFamily row.familyId now
        fail (oauthError "invalid_grant" "Refresh token reuse was detected.")

/-- The columns of a new federated credential, with the verdict on its verification keys. -/
structure CreateFederatedCredential where
  issuer : String
  subject : String
  audienceResourceId : Id
  keys : Except Failure Unit

def ensureAudienceResource (applicationId resourceId : Id) : Exchange Unit := do
  let application ← ask (·.findApplication applicationId)
  let application ← orThrow application (notFound "Application not found.")
  let resource ← onAccess (look (·.findResource resourceId))
  require (resource.any fun r => r.activeVisibleToOrganization application.ownerOrganizationId)
    (badRequest
      "audienceResourceId must reference a Resource Server visible to the Application tenant.")

def createFederatedCredential (applicationId : Id) (input : CreateFederatedCredential) :
    Exchange Unit := do
  let application ← ask (·.findApplication applicationId)
  require application.isSome (notFound "Application not found.")
  Procedure.ofExcept input.keys
  ensureAudienceResource applicationId input.audienceResourceId
  let id ← onAccess generateId
  let row : FederatedCredential :=
    ⟨id, applicationId, input.issuer, input.subject, input.audienceResourceId, true⟩
  commit (.createFederatedCredential row) (Repository.createFederatedCredential row)

def updateFederatedCredential (applicationId id : Id) (patch : UpdateFederatedCredential)
    (keys : Except Failure Unit) : Exchange Unit := do
  let current ← ask (·.getFederatedCredential applicationId id)
  require current.isSome (notFound "Federated credential not found.")
  forEach patch.audienceResourceId.toList fun resourceId =>
    ensureAudienceResource applicationId resourceId
  Procedure.ofExcept keys
  commit (.updateFederatedCredential applicationId id patch)
    (Repository.updateFederatedCredential applicationId id patch)
  let row ← ask (·.getFederatedCredential applicationId id)
  require row.isSome (notFound "Federated credential not found.")

end FlareAuth.TokenExchange
