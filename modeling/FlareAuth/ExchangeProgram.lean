import FlareAuth.AccessProgram
import FlareAuth.ConnectionIntents
import FlareAuth.TokenExchange

/-!
# The program of token exchange and agent access

Every call that touches a Resource Server's access requests, entitlements,
leases, connection intents or exchanged tokens, on one store.
-/

namespace FlareAuth

namespace TokenExchange

open Concurrent Procedure Access

section Program

variable [Locale]

inductive Call where
  | access (call : FlareAuth.Call)
  | createResourceConnectionIntent (resourceId : Id) (input : CreateResourceConnectionIntent)
      (actorUserId : Id)
  | completeResourceConnectionIntent (state : String) (provider : Except Failure Unit)
  | failResourceConnectionIntent (state : String)
  | exchangeToken (input : TokenExchangeRequest) (client : ClientCredentials) (issuer : String)
  | refreshToken (input : TokenRefreshRequest) (client : ClientCredentials) (issuer : String)
  | createFederatedCredential (applicationId : Id) (input : CreateFederatedCredential)
  | updateFederatedCredential (applicationId id : Id) (patch : UpdateFederatedCredential)
      (keys : Except Failure Unit)
  | clients (rows : List OAuthClient)
  | applications (rows : List Application)

inductive Reply where
  | none
  | access (reply : FlareAuth.Reply)
  | intent (intent : ConnectionIntent)
  | returnTo (path : String)
  | token (response : TokenExchangeResponse)

def Call.program : Call → Exchange Reply
  | .access call => do return .access (← onAccess call.program)
  | .createResourceConnectionIntent resourceId input actorUserId => do
    return .intent
      (← TokenExchange.createResourceConnectionIntent resourceId input actorUserId)
  | .completeResourceConnectionIntent state provider => do
    return .returnTo (← TokenExchange.completeResourceConnectionIntent state provider)
  | .failResourceConnectionIntent state => do
    return .returnTo (← TokenExchange.failResourceConnectionIntent state)
  | .exchangeToken input client issuer => do
    return .token (← exchangeFederatedToken input client issuer)
  | .refreshToken input client issuer => do
    return .token (← TokenExchange.refreshToken input client issuer)
  | .createFederatedCredential applicationId input => do
    TokenExchange.createFederatedCredential applicationId input
    return .none
  | .updateFederatedCredential applicationId id patch keys => do
    TokenExchange.updateFederatedCredential applicationId id patch keys
    return .none
  | .clients rows => query (.clients rows) fun _ => .none
  | .applications rows => query (.applications rows) fun _ => .none

abbrev ExchangePool := Pool Call Site SiteOperation Failure Reply

end Program

/-- No token and no intent yet, and no agent access, whatever else the tables hold. -/
structure Site.Fresh (s : Site) : Prop where
  access : s.access.Fresh
  accessTokens : s.accessTokens = []
  refreshTokens : s.refreshTokens = []
  connectionIntents : s.connectionIntents = []

/-- The states over every interleaving of the calls from a fresh store, with moves that meet a
condition. -/
abbrev ExchangeReachable [Locale] (ok : ExchangePool → Move Call → Prop) : ExchangePool → Prop :=
  Reachable Call.program Site.Fresh ok

namespace Sample

/-- The small deployment with one Application of its own, which trusts one issuer. -/
def client : OAuthClient where
  clientId := "app"
  clientSecret := some (sha256 "secret")
  disabled := false
  grantTypes := [tokenExchangeGrantType, refreshTokenGrantType]

def application : Application where
  id := "application"
  oauthClientId := "app"
  ownerOrganizationId := "o"
  visibility := .publicResource
  disabled := false
  consentRequired := false
  oidcScopes := ["offline_access"]
  resourceScopes := [⟨"notes", ["read"]⟩]
  tokenExchangePolicies := []

def credential : FederatedCredential where
  id := "credential"
  applicationId := "application"
  issuer := "ci"
  subject := "job"
  audienceResourceId := "notes"
  enabled := true

def directory : Directory :=
  { FlareAuth.Sample.directory with organizations := [⟨"o", "o", false⟩] }

def site : Site where
  access := { FlareAuth.Sample.store with directory := directory }
  clients := [client]
  applications := [application]
  federatedCredentials := [credential]
  accessTokens := []
  refreshTokens := []
  connectionIntents := []

theorem site_fresh : site.Fresh := ⟨⟨rfl, rfl, rfl, rfl⟩, rfl, rfl, rfl⟩

def credentials : ClientCredentials := ⟨"app", some "secret"⟩

def subjectToken : SubjectToken where
  assertion := .ok ⟨some "ci", some "job", some 100, .absent, ["https://notes"]⟩
  signature _ := .ok ()

def exchange : TokenExchangeRequest where
  grantType := tokenExchangeGrantType
  subjectToken := subjectToken
  subjectTokenType := jwtTokenType
  audience := "https://notes"
  scope := some "read offline_access"
  requestedTokenType := none

def run [Locale] (moves : List (Move Call)) : Option ExchangePool :=
  (Pool.initial site).run Call.program (fun _ _ => true) moves

/-- A pool that a run of the sample reaches, if the run passes a check. -/
theorem reachable_of_run [Locale] {moves : List (Move Call)} {check : ExchangePool → Bool}
    (h : (run moves).any check = true) :
    ∃ pool : ExchangePool, ExchangeReachable (fun _ _ => True) pool ∧ check pool = true :=
  Reachable.of_any (fun _ _ _ => trivial) (.initial site_fresh) h

end Sample

end TokenExchange

end FlareAuth
