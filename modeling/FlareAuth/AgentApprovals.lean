import FlareAuth.Concurrent.Pool
import FlareAuth.Directory
import FlareAuth.Failure
import FlareAuth.Relational.Keyed

/-!
# Approvals of Agents

The protocol agents, their hosts, their capability grants and the approval
requests by device code. A decision reads these rows one by one and writes them
in one batch, each statement with a condition of its own.
-/

namespace FlareAuth.ProtocolAgents

open Concurrent Procedure Relational

/-- The states of Agents, hosts, grants and approval requests. -/
inductive Stage where
  | pending | active | approved | denied | rejected | revoked | expired
  deriving DecidableEq

structure ApprovalRequest where
  id : Id
  method : String
  agentId : Option Id
  hostId : Option Id
  status : Stage
  userCodeHash : Option String
  expiresAt : ℕ
  updatedAt : ℕ
  deriving DecidableEq

structure Agent where
  id : Id
  userId : Option Id
  hostId : Id
  status : Stage
  activatedAt : Option ℕ
  updatedAt : ℕ
  deriving DecidableEq

structure AgentHost where
  id : Id
  userId : Option Id
  status : Stage
  activatedAt : Option ℕ
  updatedAt : ℕ
  deriving DecidableEq

structure CapabilityGrant where
  id : Id
  agentId : Id
  capability : String
  deniedBy : Option Id
  grantedBy : Option Id
  status : Stage
  updatedAt : ℕ
  deriving DecidableEq

structure Audit where
  id : Id
  action : String
  result : String
  ownerUserId : Id
  controllerUserId : Id
  subjectIssuer : Option String
  subject : Option String
  agentIdentityId : Option Id
  hostId : Option Id
  scopes : List String
  occurredAt : ℕ
  deriving DecidableEq

structure Store where
  now : ℕ
  generated : ℕ
  identities : List AgentIdentity
  bindings : List AgentBinding
  requests : Keyed ApprovalRequest.id
  agents : Keyed Agent.id
  hosts : Keyed AgentHost.id
  grants : Keyed CapabilityGrant.id
  audits : List Audit

inductive Action where
  | approve | deny
  deriving DecidableEq

structure DecisionInput where
  agentId : Id
  userCode : String
  action : Action
  capabilities : Option (List String)

namespace Store

def findActiveByProtocolAgent (s : Store) (id : Id) : Option AgentIdentity :=
  (s.bindings.filter fun b => b.protocolAgentId = id ∧ b.status = .active).findSome? fun b =>
    s.identities.find? fun i => i.id = b.agentIdentityId ∧ i.status = .active ∧ i.deletedAt = none

def listCapabilityGrantsForAgent (s : Store) (agentId : Id) : List CapabilityGrant :=
  s.grants.rows.filter fun g => g.agentId = agentId

def pendingGrants (s : Store) (agentId : Id) : List CapabilityGrant :=
  s.grants.rows.filter fun g => g.agentId = agentId ∧ g.status = .pending

def findPendingRequest (s : Store) (agentId : Id) (userCodeHash : String) (now : ℕ) :
    Option ApprovalRequest :=
  s.requests.rows.find? fun r => r.agentId = some agentId ∧ r.method = "device_authorization" ∧
    r.status = .pending ∧ r.userCodeHash = some userCodeHash ∧ now < r.expiresAt

end Store

/-- A decision with the rows that it was prepared from. -/
structure Decision where
  agentId : Id
  userId : Id
  action : Action
  now : ℕ
  request : ApprovalRequest
  currentAgent : Agent
  host : Option AgentHost
  pendingGrants : List CapabilityGrant
  approvedCapabilities : List String
  audit : Audit

namespace Decision

variable (d : Decision)

/-- The Agent, and the host of the request, are nobody's or the deciding user's. -/
def controllerClaim (s : Store) : Bool :=
  (s.agents.rows.any fun a => a.id = d.agentId ∧ (a.userId = none ∨ a.userId = some d.userId)) &&
    (d.request.hostId.all fun hostId => s.hosts.rows.any fun h =>
      h.id = hostId ∧ (h.userId = none ∨ h.userId = some d.userId))

def selects (s : Store) (r : ApprovalRequest) : Bool :=
  r.id = d.request.id && r.status = .pending && d.controllerClaim s

def found (s : Store) : List ApprovalRequest := s.requests.rows.filter (d.selects s)

def insertAudit (s : Store) : Store :=
  { s with audits := s.audits ++ (d.found s).map fun _ => d.audit }

def updateRequest (status : Stage) (s : Store) : Store :=
  { s with
    requests := s.requests.update (d.selects s)
      (fun r => { r with status := status, updatedAt := d.now }) fun _ => rfl }

def decided (g r : CapabilityGrant) : CapabilityGrant :=
  if g.capability ∈ d.approvedCapabilities then
    { r with status := .active, grantedBy := some d.userId, updatedAt := d.now }
  else { r with status := .denied, deniedBy := some d.userId, updatedAt := d.now }

theorem decided_id (g r : CapabilityGrant) : (d.decided g r).id = r.id := by
  unfold decided
  split <;> rfl

def decideGrant (grants : Keyed CapabilityGrant.id) (g : CapabilityGrant) :
    Keyed CapabilityGrant.id :=
  grants.update (fun r => r.id = g.id && r.status = .pending) (d.decided g) (d.decided_id g)

def decideGrants (s : Store) : Store :=
  { s with grants := d.pendingGrants.foldl d.decideGrant s.grants }

def denyGrants (s : Store) : Store :=
  if d.pendingGrants.isEmpty then s
  else { s with
    grants := s.grants.update (fun r => r.agentId = d.agentId && r.status = .pending)
      (fun r => { r with status := .denied, deniedBy := some d.userId, updatedAt := d.now })
      fun _ => rfl }

def updateAgent (f : Agent → Agent) (hf : ∀ a, (f a).id = a.id) (s : Store) : Store :=
  if d.currentAgent.status = .pending then
    { s with agents := s.agents.update (fun a => a.id = d.agentId && a.status = .pending) f hf }
  else s

def activateAgent : Store → Store := d.updateAgent
  (fun a => { a with
    status := .active
    userId := some d.userId
    activatedAt := some d.now
    updatedAt := d.now }) fun _ => rfl

def rejectAgent : Store → Store := d.updateAgent
  (fun a => { a with
    status := .rejected
    userId := some d.userId
    updatedAt := d.now }) fun _ => rfl

def pendingHost : Option AgentHost := d.host.filter fun h => h.status = .pending

def activateHost (s : Store) : Store :=
  match d.pendingHost with
  | none => s
  | some host => { s with
    hosts := s.hosts.update (fun h => h.id = host.id && h.status = .pending)
      (fun h => { h with
        status := .active
        userId := some d.userId
        activatedAt := some d.now
        updatedAt := d.now }) fun _ => rfl }

/-- The statements of the batch. None of them fails, and each has its own condition. -/
def perform (s : Store) : Store :=
  match d.action with
  | .approve => d.activateHost (d.activateAgent (d.decideGrants (d.updateRequest .approved
      (d.insertAudit s))))
  | .deny => d.rejectAgent (d.denyGrants (d.updateRequest .denied (d.insertAudit s)))

end Decision

inductive Operation where
  | read
  | generateId
  | elapse (milliseconds : ℕ)
  | decideApproval (decision : Decision)
  | revokeAgentRecord (agentId : Id) (now : ℕ)
  | revokeHostRecord (hostId : Id) (now : ℕ)
  | revokeAgentCapabilityGrants (agentId : Id) (now : ℕ)
  | revokeCapabilityGrantRecord (grantId : Id) (now : ℕ)
  | revokeAgentApprovalRequests (agentId : Id) (now : ℕ)
  | revokeHostApprovalRequests (hostId : Id) (now : ℕ)

def Store.revokeGrants (s : Store) (p : CapabilityGrant → Bool) (now : ℕ) : Store :=
  { s with
    grants := s.grants.update p (fun g => { g with status := .revoked, updatedAt := now })
      fun _ => rfl }

def Store.revokeRequests (s : Store) (p : ApprovalRequest → Bool) (now : ℕ) : Store :=
  { s with
    requests := s.requests.update p (fun r => { r with status := .revoked, updatedAt := now })
      fun _ => rfl }

def Operation.perform : Operation → Store → Store
  | .read, s => s
  | .generateId, s => { s with generated := s.generated + 1 }
  | .elapse milliseconds, s => { s with now := s.now + milliseconds }
  | .decideApproval decision, s => decision.perform s
  | .revokeAgentRecord agentId now, s => { s with
      agents := s.agents.update (·.id = agentId)
        (fun a => { a with status := .revoked, updatedAt := now }) fun _ => rfl }
  | .revokeHostRecord hostId now, s => { s with
      hosts := s.hosts.update (·.id = hostId)
        (fun h => { h with status := .revoked, updatedAt := now }) fun _ => rfl }
  | .revokeAgentCapabilityGrants agentId now, s => s.revokeGrants (·.agentId = agentId) now
  | .revokeCapabilityGrantRecord grantId now, s => s.revokeGrants (·.id = grantId) now
  | .revokeAgentApprovalRequests agentId now, s => s.revokeRequests (·.agentId = some agentId) now
  | .revokeHostApprovalRequests hostId now, s => s.revokeRequests (·.hostId = some hostId) now

instance : Operational Operation Store := ⟨Operation.perform⟩

abbrev Agents := Procedure Store Operation Failure

inductive ApprovalStatus where
  | approved | denied
  deriving DecidableEq

/-- The hash of a user code once it is brought to its normal form. -/
class UserCodes where
  hashAgentUserCode : String → String

section Repository

variable {α : Type}

def look (answer : Store → α) : Agents α := Procedure.query .read answer

def perform (op : Operation) : Agents Unit := Procedure.query op fun _ => ()

/-- Statements that take the time when they are issued. -/
def stamped (op : ℕ → Operation) : Agents Unit := do
  let now ← look (·.now)
  perform (op now)

def decideApproval (agentId : Id) (userCodeHash : String) (action : Action)
    (capabilities : Option (List String)) (userId : Id) (now : ℕ) (audit : Audit) :
    Agents ApprovalStatus := do
  let request ← look (·.findPendingRequest agentId userCodeHash now)
  let request ← orThrow request
    (badRequest "Agent approval is invalid, expired, or no longer pending.")
  let currentAgent ← look (·.agents.find agentId)
  let host ← look fun s => request.hostId.bind s.hosts.find
  let pendingGrants ← look (·.pendingGrants agentId)
  let currentAgent ← orThrow currentAgent (notFound "Agent was not found.")
  require (currentAgent.userId.all (· = userId) = true)
    (forbidden "Agent approval belongs to another controller.")
  require ((host.bind (·.userId)).all (· = userId) = true)
    (forbidden "Agent host belongs to another controller.")
  let requestedCapabilities := capabilities.getD (pendingGrants.map (·.capability))
  require (∀ capability ∈ requestedCapabilities, ∃ g ∈ pendingGrants, g.capability = capability)
    (badRequest "Agent approval includes a capability that is not pending.")
  let decision : Decision :=
    ⟨agentId, userId, action, now, request, currentAgent, host, pendingGrants,
      requestedCapabilities,
      audit⟩
  let found ← Procedure.query (.decideApproval decision) decision.found
  require (found ≠ []) (badRequest "Agent approval is invalid, expired, or no longer pending.")
  match action with
  | .approve => return .approved
  | .deny => return .denied

def revokeAgentRows (agentId : Id) : Agents Unit := do
  stamped (.revokeAgentRecord agentId)
  stamped (.revokeAgentCapabilityGrants agentId)
  stamped (.revokeAgentApprovalRequests agentId)

def requireAgentOfUser (agentId userId : Id) (e : Failure) : Agents Unit := do
  let current ← look fun s => (s.agents.find agentId).filter fun a => a.userId = some userId
  let _ ← orThrow current e

def revokeAgentForUser (agentId userId : Id) : Agents Unit := do
  requireAgentOfUser agentId userId (notFound "Agent was not found.")
  revokeAgentRows agentId

def revokeCapabilityGrantForUser (grantId userId : Id) : Agents Unit := do
  let grant ← look (·.grants.find grantId)
  let grant ← orThrow grant (notFound "Agent capability grant was not found.")
  requireAgentOfUser grant.agentId userId (notFound "Agent capability grant was not found.")
  stamped (.revokeCapabilityGrantRecord grantId)

def revokeAgent (agentId : Id) : Agents Unit := do
  let current ← look (·.agents.find agentId)
  let _ ← orThrow current (notFound "Agent was not found.")
  revokeAgentRows agentId

def revokeHost (hostId : Id) : Agents Unit := do
  let current ← look (·.hosts.find hostId)
  let _ ← orThrow current (notFound "Agent host was not found.")
  let now ← look (·.now)
  perform (.revokeHostRecord hostId now)
  let hostAgents ← look fun s => s.agents.rows.filter fun a => a.hostId = hostId
  forEach hostAgents fun row => stamped (.revokeAgentRecord row.id)
  forEach hostAgents fun row => stamped (.revokeAgentCapabilityGrants row.id)
  forEach hostAgents fun row => stamped (.revokeAgentApprovalRequests row.id)
  stamped (.revokeHostApprovalRequests hostId)

def revokeCapabilityGrant (grantId : Id) : Agents Unit := do
  let current ← look (·.grants.find grantId)
  let _ ← orThrow current (notFound "Agent capability grant was not found.")
  stamped (.revokeCapabilityGrantRecord grantId)

end Repository

variable [UserCodes]

def decideAgentApproval (input : DecisionInput) (userId : Id) : Agents ApprovalStatus := do
  let grants ← look (·.listCapabilityGrantsForAgent input.agentId)
  let pendingCapabilities := (grants.filter fun g => g.status = .pending).map (·.capability)
  let capabilities :=
    if input.action = .deny then pendingCapabilities
    else input.capabilities.getD pendingCapabilities
  let identity ← look (·.findActiveByProtocolAgent input.agentId)
  let protocolAgent ← look (·.agents.find input.agentId)
  let tenant := (identity.map (·.ownerUserId)).getD ((protocolAgent.bind (·.userId)).getD userId)
  let now ← look (·.now)
  let auditId ← Procedure.query .generateId fun s => "id-" ++ toString s.generated
  let occurredAt ← look (·.now)
  let audit : Audit :=
    { id := auditId
      action := if capabilities = [] then "agent.enrollment_decided" else "agent.capability_decided"
      result := if input.action = .approve then "allowed" else "denied"
      ownerUserId := tenant
      controllerUserId := userId
      subjectIssuer := identity.map (·.issuer)
      subject := identity.map (·.subject)
      agentIdentityId := identity.map (·.id)
      hostId := protocolAgent.map (·.hostId)
      scopes := capabilities
      occurredAt := occurredAt }
  decideApproval input.agentId (UserCodes.hashAgentUserCode input.userCode) input.action
    input.capabilities userId now audit

inductive Call where
  | decideAgentApproval (input : DecisionInput) (userId : Id)
  | revokeAgentForUser (agentId userId : Id)
  | revokeCapabilityGrantForUser (grantId userId : Id)
  | revokeAgent (agentId : Id)
  | revokeHost (hostId : Id)
  | revokeCapabilityGrant (grantId : Id)
  | elapse (milliseconds : ℕ)

/-- What a call returns: only a decision has an answer. -/
def Call.program : Call → Agents (Option ApprovalStatus)
  | .decideAgentApproval input userId => some <$> ProtocolAgents.decideAgentApproval input userId
  | .revokeAgentForUser agentId userId =>
    (fun _ => none) <$> ProtocolAgents.revokeAgentForUser agentId userId
  | .revokeCapabilityGrantForUser grantId userId =>
    (fun _ => none) <$> ProtocolAgents.revokeCapabilityGrantForUser grantId userId
  | .revokeAgent agentId => (fun _ => none) <$> ProtocolAgents.revokeAgent agentId
  | .revokeHost hostId => (fun _ => none) <$> ProtocolAgents.revokeHost hostId
  | .revokeCapabilityGrant grantId =>
    (fun _ => none) <$> ProtocolAgents.revokeCapabilityGrant grantId
  | .elapse milliseconds => Procedure.query (.elapse milliseconds) fun _ => none

abbrev AgentPool := Pool Call Store Operation Failure (Option ApprovalStatus)

/-- The runs from any store: what others wrote before is not restricted. -/
abbrev AgentReachable : AgentPool → Prop :=
  Reachable Call.program (fun _ => True)
    (Unrestricted Call Store Operation Failure (Option ApprovalStatus))

end FlareAuth.ProtocolAgents
