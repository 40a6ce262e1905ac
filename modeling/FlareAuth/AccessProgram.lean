import FlareAuth.AccessHistory
import FlareAuth.AccessRevocation

/-!
# The program of agent access

Every call that touches agent access, as one program: the requests of Agents
and controllers, and the steps of the environment.
-/

namespace FlareAuth

open Concurrent Procedure Access

structure Credentials where
  identityId : Id
  bindingId : Id
  runtime : Option String
  sessionId : Option String

def Directory.findActiveAgent (d : Directory) (c : Credentials) :
    Option (AgentIdentity × AgentBinding) := do
  let identity ← (d.findIdentity c.identityId).filter (·.status = .active)
  let binding ← (d.bindingsOf identity.id).find? fun b => b.id = c.bindingId ∧ b.status = .active
  return (identity, binding)

theorem Directory.findActiveAgent_mem {d : Directory} {c : Credentials} {identity : AgentIdentity}
    {binding : AgentBinding} (h : d.findActiveAgent c = some (identity, binding)) :
    identity ∈ d.identities ∧ binding ∈ d.bindings ∧ binding.agentIdentityId = identity.id := by
  simp only [findActiveAgent, bind, Option.bind_eq_some_iff] at h
  obtain ⟨i, hi, b, hb, h⟩ := h
  obtain ⟨rfl, rfl⟩ : i = identity ∧ b = binding := by simpa using h
  have hbinding := List.mem_filter.mp (List.mem_of_find?_eq_some hb)
  refine ⟨List.mem_of_find?_eq_some (Option.filter_eq_some_iff.mp hi).1, hbinding.1, ?_⟩
  simpa using hbinding.2

def authenticateAgent (c : Credentials) : Access AgentResourcePrincipal := do
  let found ← look (·.findActiveAgent c)
  let (identity, binding) ← orThrow found
    (forbidden "An active Agent identity and host binding are required.")
  return ⟨identity, binding, c.runtime, c.sessionId⟩

section Program

variable [Locale]

inductive Call where
  | createAgentAccessRequest (agent : Credentials) (input : CreateAgentAccessRequest)
  | decideAgentAccessRequest (requestId : Id) (input : DecideAgentAccessRequest) (actorUserId : Id)
  | createAgentPermission (agentId : Id) (input : CreateAgentPermission) (actorUserId : Id)
      (organizationId : Option Id)
  | createScopeEntitlement (input : ScopeEntitlement) (now : ℕ)
  | issueTargetAccessToken (requestId : Id) (proof : TokenProof) (agent : Credentials)
  | revokeAgentPermission (entitlementId actorUserId : Id)
  | revokeAgentResourceAccess (agentIdentityId : Id)
  | revokeAgentResourceLeasesForBinding (bindingId : Id)
  | revokeUncoveredEntitlements (connectionId : Id) (authorizationDetailsRequired : Bool)
      (controllerUserId : Id)
  | revokeResourceConnection (connectionId actorUserId : Id)
  | disconnectProviderConnection (connectionId actorUserId : Id)
  | resetConnector (connectorId : Id)
  | deleteResource (resourceId : Id) (controllerUserId : Option Id)
  | endEntitlementsById (ids : List Id)
  | elapse (milliseconds : ℕ)
  | outside (world : World)
  | administer (change : DirectoryChange)

inductive Reply where
  | none
  | request (request : AgentAccessRequest)
  | permissions (permissions : List ScopeEntitlement)
  | token (token : IssuedToken)

def environment (op : Operation) : Access Reply := query op fun _ => .none

def Call.program : Call → Access Reply
  | .createAgentAccessRequest agent input => do
    let principal ← authenticateAgent agent
    return .request (← FlareAuth.createAgentAccessRequest input principal)
  | .decideAgentAccessRequest requestId input actorUserId => do
    return .request (← FlareAuth.decideAgentAccessRequest requestId input actorUserId none)
  | .createAgentPermission agentId input actorUserId organizationId => do
    return .permissions (← FlareAuth.createAgentPermission agentId input actorUserId organizationId)
  | .createScopeEntitlement input now =>
    if input.agentIdentityId.isNone ∧ input.ended.isNone then do
      return .permissions [← FlareAuth.createScopeEntitlement input now]
    else return .none
  | .issueTargetAccessToken requestId proof agent => do
    let principal ← authenticateAgent agent
    return .token (← FlareAuth.issueTargetAccessToken requestId proof principal)
  | .revokeAgentPermission entitlementId actorUserId => do
    FlareAuth.revokeAgentPermission entitlementId actorUserId
    return .none
  | .revokeAgentResourceAccess agentIdentityId => do
    FlareAuth.revokeAgentResourceAccess agentIdentityId
    return .none
  | .revokeAgentResourceLeasesForBinding bindingId => do
    FlareAuth.revokeAgentResourceLeasesForBinding bindingId
    return .none
  | .revokeUncoveredEntitlements connectionId required controllerUserId => do
    let connection ← look (·.findConnection connectionId)
    let connection ← orThrow connection (notFound "Resource account connection was not found.")
    let now ← clock
    FlareAuth.revokeUncoveredEntitlements connection required controllerUserId now
    return .none
  | .revokeResourceConnection connectionId actorUserId => do
    FlareAuth.revokeResourceConnection connectionId actorUserId
    return .none
  | .disconnectProviderConnection connectionId actorUserId => do
    FlareAuth.disconnectProviderConnection connectionId actorUserId
    return .none
  | .resetConnector connectorId => do
    revokeResourceAuthorizationsByConnector connectorId
    return .none
  | .deleteResource resourceId controllerUserId => do
    FlareAuth.deleteResource resourceId controllerUserId
    return .none
  | .endEntitlementsById ids => do
    let now ← clock
    commit (.endEntitlementsById ids now) (Repository.endEntitlementsById ids now)
    return .none
  | .elapse milliseconds => environment (.elapse milliseconds)
  | .outside world => environment (.outside world)
  | .administer change => environment (.administer change)

abbrev AccessPool := Pool Call Store Operation Failure Reply

/-- The states of agent access, over every interleaving of calls from a fresh store. -/
abbrev AccessReachable : AccessPool → Prop :=
  Reachable Call.program Store.Fresh (Unrestricted Call Store Operation Failure Reply)

end Program

namespace Sample

/-- The outside of a small deployment, for runs on fixed inputs: one Agent of the user `u`, and
one native resource with an automatic scope and two assigned ones. -/
def world : World where
  catalogPages := 0
  catalogPage _ _ := .error (.error "unavailable")
  providerToken _ := .ok "provider-token"
  connectorGeneration _ _ := .ok 1
  connectorMetadata _ := .ok ()
  scopeDiscovery _ := .ok ()
  dpopThumbprint _ _ := .ok "jkt"
  actorGrant _ := .ok "actor"
  tokenExchange _ _ _ := .error (.error "unavailable")
  revocation _ := .ok ()
  teamNames _ _ := []

def notes : ApiResource where
  id := "notes"
  identifier := "notes"
  resourceUrl := "https://notes"
  authorizationModel := .native
  connectorId := none
  authorizationDetails := []
  enabled := true
  ownerOrganizationId := "o"
  visibility := .publicResource
  scopeRegistry := some [⟨"read", .automatic⟩, ⟨"list", .assigned⟩, ⟨"write", .assigned⟩]
  availableToAgents := true
  deletedAt := none

def directory : Directory where
  users := [⟨"u", false⟩]
  resources := [notes]
  identities := [⟨"a", "iss", "sub", "u", .active, none⟩]
  bindings := [⟨"b", "a", "p", "h", .active, none⟩]

def store : Store := ⟨0, 0, directory, world, [], [], [], []⟩

theorem store_fresh : store.Fresh := ⟨rfl, rfl, rfl, rfl⟩

def agent : Credentials := ⟨"a", "b", none, none⟩

def authority : AuthorizationDetail := realmrootAuthority "user" "u"

def proof : TokenProof := ⟨"proof", "https://token", "iss"⟩

def run [Locale] (moves : List (Move Call)) : Option AccessPool :=
  (Pool.initial store).run Call.program (fun _ _ => true) moves

/-- A pool that a run of the sample reaches, if the run passes a check. -/
theorem reachable_of_run [Locale] {moves : List (Move Call)} {check : AccessPool → Bool}
    (h : (run moves).any check = true) :
    ∃ pool : AccessPool, AccessReachable pool ∧ check pool = true :=
  Reachable.of_any (fun _ _ _ => trivial) (.initial store_fresh) h

end Sample

end FlareAuth
