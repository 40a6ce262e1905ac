import FlareAuth.AccessContract
import FlareAuth.AgentBindings
import FlareAuth.Concurrent.Sightings
import FlareAuth.TenantAuthorization
import FlareAuth.TokenPayloads

/-!
# Authenticating an Agent by its token

A token that an Agent presents with a proof of its key is one of a resource, with a stored lease and
an actor, or a bootstrap token, with a binding alone. Either is read back into the identity and the
binding that it was issued to, as they are now, and into the scopes and the authority that it
carries.
-/

namespace FlareAuth

open Concurrent Procedure Access

abbrev realmrootOrganizationClaim : String := TokenExchange.realmrootOrganizationClaim

/-- The payload that `issueNativeAccessToken` signs. -/
def AgentTokenClaims.payload (c : AgentTokenClaims) : Json :=
  .object ([("iss", .string c.iss), ("sub", .string c.sub), ("aud", .string c.aud),
      ("jti", .string c.jti), ("iat", TokenExchange.number c.iat),
      ("exp", TokenExchange.number c.exp), ("scope", .string c.scope),
      ("groups", .array (c.groups.map .string)), ("client_id", .string c.clientId)] ++
    ((c.organization.filter (· ≠ "")).map fun id =>
      (realmrootOrganizationClaim, Json.string id)).toList ++
    (if c.authorizationDetails.isEmpty then []
      else [("authorization_details", Json.array c.authorizationDetails)]) ++
    (c.realmrootAuthority.map fun authority => ("realmroot_authority", authority)).toList ++
    [("cnf", .object [("jkt", .string c.confirmationJkt)]),
      ("act", .object [("iss", .string c.act.iss), ("sub", .string c.act.sub)]),
      (realmrootAgentBindingClaim, c.binding.value)])

section Payloads

variable (c : AgentTokenClaims)

namespace AgentTokenClaims

@[simp] theorem field_sub : c.payload.field "sub" = some (.string c.sub) := rfl

@[simp] theorem field_scope : c.payload.field "scope" = some (.string c.scope) := rfl

@[simp] theorem field_clientId : c.payload.field "client_id" = some (.string c.clientId) := rfl

/-- A member that is not among the first ones. -/
theorem field_payload {key : String} (hhead : key ∉ ["iss", "sub", "aud", "jti", "iat", "exp",
    "scope", "groups", "client_id", "authorization_details"]) : c.payload.field key =
      (((if realmrootOrganizationClaim = key then (c.organization.filter (· ≠ "")).map Json.string
          else none).or
        (if "realmroot_authority" = key then c.realmrootAuthority else none))).or
        ((Json.object [("cnf", .object [("jkt", .string c.confirmationJkt)]),
          ("act", .object [("iss", .string c.act.iss), ("sub", .string c.act.sub)]),
          (realmrootAgentBindingClaim, c.binding.value)]).field key) := by
  rw [payload, Json.field_append, Json.field_append, Json.field_append, Json.field_append,
    Json.field_optional, Json.field_optional]
  have hdetails : (Json.object (if c.authorizationDetails.isEmpty then []
      else [("authorization_details", Json.array c.authorizationDetails)])).field key = none := by
    by_cases hempty : c.authorizationDetails.isEmpty = true
    · rw [if_pos hempty]
      rfl
    · rw [if_neg hempty]
      simp only [List.mem_cons, not_or] at hhead
      simp [Json.field, Ne.symm hhead.2.2.2.2.2.2.2.2.2.1]
  rw [hdetails, Option.or_none]
  simp only [List.mem_cons, not_or] at hhead
  obtain ⟨h₁, h₂, h₃, h₄, h₅, h₆, h₇, h₈, h₉, _⟩ := hhead
  simp [Json.field, Ne.symm h₁, Ne.symm h₂, Ne.symm h₃, Ne.symm h₄, Ne.symm h₅, Ne.symm h₆,
    Ne.symm h₇, Ne.symm h₈, Ne.symm h₉]

@[simp] theorem field_authority :
    c.payload.field "realmroot_authority" = c.realmrootAuthority := by
  rw [field_payload c (by decide)]
  cases c.realmrootAuthority <;> simp [Json.field, realmrootOrganizationClaim,
    TokenExchange.realmrootOrganizationClaim, realmrootAgentBindingClaim]

@[simp] theorem field_cnf :
    c.payload.field "cnf" = some (.object [("jkt", .string c.confirmationJkt)]) := by
  rw [field_payload c (by decide)]
  simp [Json.field, realmrootOrganizationClaim, TokenExchange.realmrootOrganizationClaim]

@[simp] theorem field_act : c.payload.field "act" =
    some (.object [("iss", .string c.act.iss), ("sub", .string c.act.sub)]) := by
  rw [field_payload c (by decide)]
  simp [Json.field, realmrootOrganizationClaim, TokenExchange.realmrootOrganizationClaim]

@[simp] theorem field_binding :
    c.payload.field realmrootAgentBindingClaim = some c.binding.value := by
  rw [field_payload c (by decide)]
  simp [Json.field, realmrootOrganizationClaim, TokenExchange.realmrootOrganizationClaim,
    realmrootAgentBindingClaim]

end AgentTokenClaims

end Payloads

structure BootstrapClaims where
  iss : String
  sub : String
  aud : String
  clientId : String
  binding : AgentBindingClaim
  scope : String
  confirmationJkt : String
  iat : ℕ
  exp : ℕ
  jti : String

def BootstrapClaims.payload (c : BootstrapClaims) : Json :=
  .object [("iss", .string c.iss), ("sub", .string c.sub), ("aud", .string c.aud),
    ("client_id", .string c.clientId), (realmrootAgentBindingClaim, c.binding.value),
    ("scope", .string c.scope), ("cnf", .object [("jkt", .string c.confirmationJkt)]),
    ("iat", TokenExchange.number c.iat), ("exp", TokenExchange.number c.exp),
    ("jti", .string c.jti)]

structure BootstrapRequest where
  clientId : String
  scope : Option String
  resource : String
  expectedResource : String
  dpop : Except String String

def normalizeBootstrapScopes (value : Option String) : Except Failure (List String) :=
  let scopes := Text.unique (Text.split (value.getD (Text.join agentBootstrapScopes)))
  if scopes.isEmpty then .error (oauthError "invalid_scope" "At least one scope is required.")
  else .ok (Text.sort scopes)

/-- A bootstrap token at a time in whole seconds. -/
def issueAgentBootstrapAccessToken (input : BootstrapRequest) (principal : AgentResourcePrincipal)
    (signerIssuer : String) (now : ℕ) (jti : String) : Except Failure BootstrapClaims := do
  if input.clientId ≠ "" ∧ input.clientId ≠ realmrootCliClientId then
    throw (oauthError "invalid_client" "Unknown Agent OAuth client." 401)
  if input.resource ≠ input.expectedResource then
    throw (oauthError "invalid_target" "Unknown OAuth resource.")
  let scopes ← normalizeBootstrapScopes input.scope
  if scopes.any fun scope => !agentBootstrapScopes.contains scope then
    throw (oauthError "invalid_scope"
      "The requested scope requires controller-approved Resource access.")
  let confirmationJkt ← input.dpop.mapError (oauthError "invalid_dpop_proof")
  let binding : AgentBindingClaim :=
    ⟨principal.protocolAgentId, principal.hostId, principal.runtime, principal.sessionId⟩
  let _ ← binding.encode
  return ⟨signerIssuer, principal.subject, input.resource, realmrootCliClientId, binding,
    Text.join scopes, confirmationJkt, now, now + 5 * 60, jti⟩

/-- What an Agent presents: a token of which a lease may be stored, or any other signed one. -/
inductive PresentedToken where
  | leased (token : AccessToken)
  | plain (payload : Json)

/-- What the verifier of signed tokens answers of a token for an issuer and an audience. -/
abbrev TokenVerifier := PresentedToken → String → String → Option Json

/-- The verifier knows what was signed here, for whom, and refuses what was not. -/
structure TokenVerifier.Verifies (verifier : TokenVerifier) : Prop where
  signed : ∀ {claims issuer audience payload},
    verifier (.leased (.signed claims)) issuer audience = some payload →
      payload = claims.payload ∧ claims.iss = issuer ∧ claims.aud = audience
  external : ∀ {value issuer audience}, verifier (.leased (.external value)) issuer audience = none
  plain : ∀ {payload payload' issuer audience},
    verifier (.plain payload) issuer audience = some payload' → payload' = payload

structure OAuthOptions where
  issuer : String
  audience : String

/-- A request with the token of its `DPoP` authorization, its proof and the verdict on the proof
for a confirmation. -/
structure AgentTokenRequest where
  token : Option PresentedToken
  proof : Option String
  dpop : (confirmationJkt : String) → Except Failure Unit

def nonempty (value : Option String) : Option String := value.filter (· ≠ "")

def objectStringClaim (payload : Json) (objectName memberName : String) : Option String :=
  match payload.field objectName with
  | some (.object fields) => (Json.object fields).stringField memberName
  | _ => none

def scopeClaim (payload : Json) : List String :=
  ((payload.stringField "scope").map fun scope => Text.unique (Text.split scope)).getD []

def authorityClaim (value : Option Json) : Option Owner :=
  match value with
  | some (.object fields) =>
    let detail := Json.object fields
    if detail.field "type" ≠ some (.string "realmroot_authority") then none
    else (detail.stringField "id").bind fun id =>
      if detail.field "authority" = some (.string "organization") then some (.organization id)
      else if detail.field "authority" = some (.string "user") then some (.user id)
      else none
  | _ => none

structure OAuthAgent where
  issuer : String
  identity : AgentIdentity
  binding : AgentBinding
  runtime : Option String
  sessionId : Option String
  scopes : List String
  authority : Option Owner

def OAuthAgent.principal (a : OAuthAgent) : Principal :=
  ⟨none, none, some ⟨a.identity.id, a.scopes, a.authority⟩⟩

/-- The identity and the binding of a protocol Agent, if they are those of a token. -/
def Directory.findTokenAgent (d : Directory) (protocolAgentId : Id)
    (hostId issuer subject : String) :
    Option (AgentIdentity × AgentBinding) :=
  (d.findActiveBinding protocolAgentId).filter fun active =>
    active.2.hostId = hostId ∧ active.1.issuer = issuer ∧ active.1.subject = subject

def resolveLegacyAgentToken (issuer subject protocolAgentId : String) (hostId : Option String) :
    Access (AgentIdentity × AgentBinding) := do
  let hostId ← orThrow (nonempty hostId)
    (unauthorized "Legacy OAuth access token is missing its Agent Host binding.")
  let active ← look (·.findTokenAgent protocolAgentId hostId issuer subject)
  orThrow active (unauthorized
    "The legacy OAuth token does not belong to an active Agent identity and Host binding.")

def resolveBootstrapTokenAgent (binding : Option AgentBindingClaim) (issuer subject : String) :
    Access (AgentIdentity × AgentBinding) := do
  let binding ← orThrow binding
    (unauthorized "OAuth bootstrap token is missing its Agent binding.")
  let active ← look (·.findTokenAgent binding.protocolAgentId binding.hostId issuer subject)
  orThrow active (unauthorized
    "The OAuth token does not belong to an active Agent identity and Host binding.")

def findActiveLease (token : PresentedToken) (now : ℕ) : Access (Option TokenLease) :=
  match token with
  | .leased token => findActiveTokenLeaseByTokenHash (sha256 token) now
  | .plain _ => return none

def AgentBinding.live (b : AgentBinding) : Bool := decide (b.status = .active) && b.revokedAt.isNone

def resolveResourceTokenAgent (token : PresentedToken)
    (issuer ownerSubject actorIssuer actorSubject :
    String) : Access (AgentIdentity × AgentBinding) := do
  require (actorIssuer = issuer) (unauthorized "The OAuth actor issuer is invalid.")
  let refused := unauthorized "The OAuth token does not belong to an active Agent resource grant."
  let identity ← look (·.findByIssuerSubject actorIssuer actorSubject)
  let now ← clock
  let lease ← findActiveLease token now
  let identity ← orThrow identity refused
  let lease ← orThrow lease refused
  require (identity.ownerUserId = ownerSubject) refused
  let aggregate ← look fun d => (d.findIdentity identity.id).map fun i => (i, d.bindingsOf i.id)
  let active := aggregate.bind fun (i, bindings) =>
    if i.status = .active then
      (bindings.find? fun b => b.id = lease.bindingId ∧ b.live = true).map fun b => (i, b)
    else none
  orThrow active (unauthorized
    "The OAuth token does not belong to an active Agent identity and Host binding.")

/-- Which of the three kinds of tokens a payload is, and who it belongs to. -/
def resolveTokenAgent (token : PresentedToken) (payload : Json) (binding : Option AgentBindingClaim)
    (issuer clientId subject : String) : Access (AgentIdentity × AgentBinding) :=
  if clientId ≠ realmrootCliClientId then
    resolveLegacyAgentToken issuer subject clientId (payload.stringField "host_id")
  else
    match nonempty (objectStringClaim payload "act" "iss"),
        nonempty (objectStringClaim payload "act" "sub") with
    | some actorIssuer, some actorSubject =>
      resolveResourceTokenAgent token issuer subject actorIssuer actorSubject
    | _, _ => resolveBootstrapTokenAgent binding issuer subject

def requireAgentBinding (payload : Json) : Except Failure (Option AgentBindingClaim) :=
  (readRealmrootAgentBinding payload).mapError fun _ =>
    unauthorized "OAuth access token has an invalid Agent runtime session binding."

/-- `authenticateOAuthAgent`, of a token that the verifier has answered. -/
def authenticateAgentPayload (token : PresentedToken) (payload : Json) (options : OAuthOptions)
    (request : AgentTokenRequest) (clientId : String) : Access OAuthAgent := do
  let missing := unauthorized "OAuth access token is missing its Agent or DPoP binding."
  let subject ← orThrow (nonempty (payload.stringField "sub")) missing
  let confirmationJkt ← orThrow (nonempty (objectStringClaim payload "cnf" "jkt")) missing
  let _ ← orThrow (nonempty request.proof) missing
  let binding ← Procedure.ofExcept (requireAgentBinding payload)
  let active ← resolveTokenAgent token payload binding options.issuer clientId subject
  Procedure.ofExcept (request.dpop confirmationJkt)
  return ⟨options.issuer, active.1, active.2, binding.bind (·.runtime), binding.bind (·.sessionId),
    scopeClaim payload, authorityClaim (payload.field "realmroot_authority")⟩

def authenticateOAuthAgent (verifier : TokenVerifier) (options : OAuthOptions)
    (request : AgentTokenRequest) : Access (Option OAuthAgent) :=
  match request.token with
  | none => return none
  | some token =>
    match verifier token options.issuer options.audience with
    | none => .fail (unauthorized "OAuth access token is invalid.")
    | some payload =>
      match nonempty (payload.stringField "client_id") with
      | none => return none
      | some clientId =>
        if clientId = realmrootCliClientId ∨
            payload.stringField "sub_profile" = some "ai_agent" then
          some <$> authenticateAgentPayload token payload options request clientId
        else return none

end FlareAuth
