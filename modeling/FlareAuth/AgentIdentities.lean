import FlareAuth.AccessProgram
import FlareAuth.AgentApprovals

/-!
# Agent identities and their enrollment

Identities with the bindings of their hosts are rows of the directory; protocol
agents, their grants and approval requests, and the enrollment intents stand
beside the store of agent access. Each batch of the repository writes rows that
were chosen by earlier reads.
-/

namespace FlareAuth

def DirectoryChange.keepsIdentities : DirectoryChange → Bool
  | .identity _ => false
  | .binding _ => false
  | _ => true

def Operation.keepsIdentities : Operation → Bool
  | .administer change => change.keepsIdentities
  | _ => true

end FlareAuth

namespace FlareAuth.AgentIdentities

open Concurrent Procedure Relational

inductive IntentStatus where
  | pending
  | approved
  deriving DecidableEq

structure EnrollmentIntent where
  id : Id
  agentIdentityId : Option Id
  ownerUserId : Id
  protocolAgentId : Id
  idempotencyKey : Option String
  status : IntentStatus
  createdByUserId : Id
  approvedByUserId : Option Id
  expiresAt : ℕ
  approvedAt : Option ℕ

structure Site where
  access : Store
  agents : Keyed ProtocolAgents.Agent.id
  capabilityGrants : Keyed ProtocolAgents.CapabilityGrant.id
  approvalRequests : Keyed ProtocolAgents.ApprovalRequest.id
  intents : List EnrollmentIntent

abbrev SiteBatch := Batch Site Failure

def uniqueViolation : Failure := conflict
  "Agent identity and installation identifiers remain reserved after revocation or deletion and cannot be reused."

def foreignKeyViolation : Failure := .error "FOREIGN KEY constraint failed"

structure NewIdentity where
  id : Id
  issuer : String
  subject : String
  ownerUserId : Id

def NewIdentity.row (i : NewIdentity) : AgentIdentity where
  id := i.id
  issuer := i.issuer
  subject := i.subject
  ownerUserId := i.ownerUserId
  status := .active
  deletedAt := none

/-- The identity that an enrollment binds to: one that was looked up, or a new one. -/
inductive EnrollmentTarget where
  | existing (identityId : Id)
  | created (identity : NewIdentity)

def EnrollmentTarget.identityId : EnrollmentTarget → Id
  | .existing identityId => identityId
  | .created identity => identity.id

/-- The columns of a new binding; its host is that of its protocol agent. -/
structure NewBinding where
  id : Id
  agentIdentityId : Id
  protocolAgentId : Id

def NewBinding.row (b : NewBinding) (hostId : Id) : AgentBinding where
  id := b.id
  agentIdentityId := b.agentIdentityId
  protocolAgentId := b.protocolAgentId
  hostId := hostId
  status := .active
  revokedAt := none

structure IntentApproval where
  intentId : Id
  target : EnrollmentTarget
  bindingId : Id
  protocolAgentId : Id
  approvedByUserId : Id
  approvedAt : ℕ

/-- The binding of an approval is always to its target. -/
def IntentApproval.binding (a : IntentApproval) : NewBinding :=
  ⟨a.bindingId, a.target.identityId, a.protocolAgentId⟩

def IntentApproval.approved (a : IntentApproval) : List EnrollmentIntent → List EnrollmentIntent :=
  updateWhere (fun i => i.id == a.intentId && i.status == .pending) fun i =>
    { i with
      status := .approved
      approvedByUserId := some a.approvedByUserId
      approvedAt := some a.approvedAt }

namespace Site

def directory (s : Site) : Directory := s.access.directory

def findIntent (s : Site) (id : Id) : Option EnrollmentIntent :=
  lookup EnrollmentIntent.id id s.intents

def findIntentByIdempotencyKey (s : Site) (protocolAgentId : Id) (key : String) :
    Option EnrollmentIntent :=
  s.intents.find? fun i => i.protocolAgentId = protocolAgentId ∧ i.idempotencyKey = some key

def findProtocolAgent (s : Site) (id : Id) : Option ProtocolAgents.Agent := s.agents.find id

def findBindingByProtocolAgent (s : Site) (protocolAgentId : Id) : Option AgentBinding :=
  s.directory.bindings.find? fun b => b.protocolAgentId = protocolAgentId

def activeProtocolAgentIds (s : Site) (identityId : Id) : List Id :=
  (s.directory.bindings.filter fun b =>
    b.agentIdentityId = identityId ∧ b.status = .active).map (·.protocolAgentId)

def hasUser (s : Site) (id : Id) : Bool := s.directory.users.any fun u => u.id == id

def hasIdentity (s : Site) (id : Id) : Bool := s.directory.identities.any fun i => i.id == id

def setDirectory (s : Site) (f : Directory → Directory) : Site :=
  { s with access := { s.access with directory := f s.access.directory } }

end Site

namespace Repository

def updateIdentities (selected : AgentIdentity → Bool) (f : AgentIdentity → AgentIdentity) :
    SiteBatch Unit :=
  Batch.modify fun s => s.setDirectory fun d =>
    { d with identities := updateWhere selected f d.identities }

def insertIdentity (row : AgentIdentity) : SiteBatch Unit := fun s =>
  if !s.hasUser row.ownerUserId then .error foreignKeyViolation
  else if s.directory.identities.any fun i =>
      i.id == row.id || (i.issuer == row.issuer && i.subject == row.subject) then
    .error uniqueViolation
  else .ok ((), s.setDirectory fun d => { d with identities := d.identities ++ [row] })

/-- A protocol agent is bound once for ever. -/
def insertBinding (input : NewBinding) : SiteBatch Unit := fun s =>
  match s.findProtocolAgent input.protocolAgentId with
  | none => .error foreignKeyViolation
  | some agent =>
    if !s.hasIdentity input.agentIdentityId then .error foreignKeyViolation
    else if s.directory.bindings.any fun b =>
        b.id == input.id || b.protocolAgentId == input.protocolAgentId then .error uniqueViolation
    else .ok ((), s.setDirectory fun d =>
      { d with bindings := d.bindings ++ [input.row agent.hostId] })

def createIdentity (identity : NewIdentity) (bindingId protocolAgentId : Id) : SiteBatch Unit := do
  insertIdentity identity.row
  insertBinding ⟨bindingId, identity.id, protocolAgentId⟩

/-- `INSERT ... ON CONFLICT DO NOTHING`, and whether a row was inserted. -/
def insertIntent (row : EnrollmentIntent) : SiteBatch Bool := fun s =>
  if !(row.agentIdentityId.all s.hasIdentity && s.hasUser row.ownerUserId &&
      s.hasUser row.createdByUserId && (s.findProtocolAgent row.protocolAgentId).isSome) then
    .error foreignKeyViolation
  else if s.intents.any fun i => i.id == row.id || (row.idempotencyKey.isSome &&
      i.protocolAgentId == row.protocolAgentId && i.idempotencyKey == row.idempotencyKey) then
    .ok (false, s)
  else .ok (true, { s with intents := s.intents ++ [row] })

def insertTarget : EnrollmentTarget → SiteBatch Unit
  | .created identity => insertIdentity identity.row
  | .existing _ => pure ()

/-- Neither the identity nor the state of the intent is a condition of the binding. -/
def approveIntent (a : IntentApproval) : SiteBatch Unit := do
  insertTarget a.target
  insertBinding a.binding
  Batch.modify fun s => { s with intents := a.approved s.intents }

theorem revokedAgent_id (now : ℕ) (a : ProtocolAgents.Agent) :
    ({ a with status := .revoked, updatedAt := now } : ProtocolAgents.Agent).id = a.id := rfl

theorem revokedGrant_id (now : ℕ) (g : ProtocolAgents.CapabilityGrant) :
    ({ g with status := .revoked, updatedAt := now } : ProtocolAgents.CapabilityGrant).id = g.id :=
  rfl

theorem revokedRequest_id (now : ℕ) (r : ProtocolAgents.ApprovalRequest) :
    ({ r with status := .revoked, updatedAt := now } : ProtocolAgents.ApprovalRequest).id = r.id :=
  rfl

/-- `revokeProtocolAgentStatements`: every active binding of the identity, and the protocol agents
that were read before. -/
def revokeProtocolAgents (identityId : Id) (protocolAgentIds : List Id) (now : ℕ) :
    SiteBatch Unit :=
  Batch.modify fun s =>
    { s.setDirectory fun d =>
        { d with
          bindings := updateWhere (fun b => b.agentIdentityId == identityId && b.status == .active)
            (fun b => { b with status := .revoked, revokedAt := some now }) d.bindings } with
      agents := s.agents.update (fun a => protocolAgentIds.contains a.id)
        (fun a => { a with status := .revoked, updatedAt := now }) (revokedAgent_id now)
      capabilityGrants := s.capabilityGrants.update (fun g => protocolAgentIds.contains g.agentId)
        (fun g => { g with status := .revoked, updatedAt := now }) (revokedGrant_id now)
      approvalRequests := s.approvalRequests.update
        (fun r => r.agentId.any protocolAgentIds.contains)
        (fun r => { r with status := .revoked, updatedAt := now }) (revokedRequest_id now) }

def deactivateIdentity (identityId : Id) (protocolAgentIds : List Id) (revokeBindings : Bool)
    (now : ℕ) : SiteBatch Unit := do
  updateIdentities (fun i => i.id == identityId) fun i => { i with status := .inactive }
  if revokeBindings then revokeProtocolAgents identityId protocolAgentIds now else pure ()

def activateIdentity (identityId : Id) : SiteBatch Bool := do
  let found ← Batch.read fun s => s.directory.identities.any fun i =>
    i.id == identityId && i.status == .inactive && i.deletedAt.isNone
  updateIdentities (fun i => i.id == identityId && i.status == .inactive && i.deletedAt.isNone)
    fun i => { i with status := .active }
  return found

def deleteIdentity (identityId : Id) (protocolAgentIds : List Id) (now : ℕ) : SiteBatch Unit := do
  updateIdentities (fun i => i.id == identityId && i.deletedAt.isNone)
    fun i => { i with status := .inactive, deletedAt := some now }
  revokeProtocolAgents identityId protocolAgentIds now

/-- Registration of a protocol agent, or a later change of it; a revoked one stays revoked. -/
def putAgent (row : ProtocolAgents.Agent) : SiteBatch Unit := Batch.modify fun s =>
  match s.agents.insert? row with
  | some agents => { s with agents := agents }
  | none => { s with
      agents := s.agents.update (fun a => a.id == row.id && a.status != .revoked)
        (fun a => { row with id := a.id }) fun _ => rfl }

end Repository

inductive SiteOperation where
  | read
  | access (op : Operation)
  | putAgent (row : ProtocolAgents.Agent)
  | createIdentity (identity : NewIdentity) (bindingId protocolAgentId : Id)
  | insertIntent (row : EnrollmentIntent)
  | approveIntent (approval : IntentApproval)
  | deactivateIdentity (identityId : Id) (protocolAgentIds : List Id) (revokeBindings : Bool)
      (now : ℕ)
  | activateIdentity (identityId : Id)
  | deleteIdentity (identityId : Id) (protocolAgentIds : List Id) (now : ℕ)

def SiteOperation.perform : SiteOperation → Site → Site
  | .read, s => s
  | .access op, s => if op.keepsIdentities then { s with access := op.perform s.access } else s
  | .putAgent row, s => (Repository.putAgent row).settle s
  | .createIdentity identity bindingId protocolAgentId, s =>
    (Repository.createIdentity identity bindingId protocolAgentId).settle s
  | .insertIntent row, s => (Repository.insertIntent row).settle s
  | .approveIntent approval, s => (Repository.approveIntent approval).settle s
  | .deactivateIdentity identityId ids revokeBindings now, s =>
    (Repository.deactivateIdentity identityId ids revokeBindings now).settle s
  | .activateIdentity identityId, s => (Repository.activateIdentity identityId).settle s
  | .deleteIdentity identityId ids now, s =>
    (Repository.deleteIdentity identityId ids now).settle s

instance : Operational SiteOperation Site := ⟨SiteOperation.perform⟩

theorem apply_eq (op : SiteOperation) (s : Site) : apply op s = op.perform s := rfl

abbrev Identities := Procedure Site SiteOperation Failure

variable {α : Type}

def ask (answer : Site → α) : Identities α := Procedure.query .read answer

def onAccess (p : Access α) : Identities α := p.lift Site.access .access

def commit (op : SiteOperation) (batch : SiteBatch α) : Identities α :=
  Procedure.step op fun s => Procedure.ofExcept (batch.outcome s)

section Repository

def deactivateIdentity (identityId : Id) (now : ℕ) (revokeBindings : Bool) : Identities Bool := do
  let found ← ask (·.directory.findIdentity identityId)
  match found with
  | none => return false
  | some identity =>
    if identity.status = .inactive ∧ revokeBindings = false then return true
    else
      let ids ← ask (·.activeProtocolAgentIds identityId)
      commit (.deactivateIdentity identityId ids revokeBindings now)
        (Repository.deactivateIdentity identityId ids revokeBindings now)
      return true

def activateIdentity (identityId : Id) : Identities Bool := do
  let ids ← ask (·.activeProtocolAgentIds identityId)
  if ids.isEmpty then return false
  else commit (.activateIdentity identityId) (Repository.activateIdentity identityId)

def deleteIdentity (identityId : Id) (now : ℕ) : Identities Bool := do
  let found ← ask (·.directory.findIdentity identityId)
  if found.isNone then return false
  else
    let ids ← ask (·.activeProtocolAgentIds identityId)
    commit (.deleteIdentity identityId ids now) (Repository.deleteIdentity identityId ids now)
    return true

def approveIntent (a : IntentApproval) : Identities AgentIdentity := do
  commit (.approveIntent a) (Repository.approveIntent a)
  let identity ← ask (·.directory.findIdentity a.target.identityId)
  orThrow identity (.error "Approved Agent identity was not persisted.")

def createIntentIdempotently (row : EnrollmentIntent) : Identities (EnrollmentIntent × Bool) := do
  if ← commit (.insertIntent row) (Repository.insertIntent row) then return (row, true)
  else
    let existing ← ask fun s =>
      row.idempotencyKey.bind (s.findIntentByIdempotencyKey row.protocolAgentId)
    let existing ← orThrow existing
      (.error "Agent installation enrollment reservation did not return its durable resource.")
    return (existing, false)

end Repository

def requireIdentity (identityId : Id) : Identities AgentIdentity := do
  let identity ← ask (·.directory.findIdentity identityId)
  orThrow identity (notFound "Agent identity was not found.")

def assertController (ownerUserId actorUserId : Id) : Identities Unit :=
  require (ownerUserId = actorUserId) (forbidden "Agent identity controller access is required.")

def requireControlledIdentity (identityId actorUserId : Id) : Identities AgentIdentity := do
  let identity ← requireIdentity identityId
  assertController identity.ownerUserId actorUserId
  return identity

def assertProtocolAgentCanEnroll (protocolAgentId actorUserId : Id) : Identities Unit := do
  let agent ← ask (·.findProtocolAgent protocolAgentId)
  require (agent.any fun a => a.status = .active ∧ a.userId = some actorUserId)
    (notFound "Active Agent protocol registration was not found.")
  let binding ← ask (·.findBindingByProtocolAgent protocolAgentId)
  require binding.isNone (badRequest "Agent protocol registration is already bound.")

def enrollmentLifetimeMs : ℕ := 10 * 60 * 1000

def requireMatchingInstallationEnrollment (intent : EnrollmentIntent)
    (identityId actorUserId : Id) :
    Identities Unit := do
  require (intent.createdByUserId = actorUserId)
    (forbidden "This Agent cannot replay the enrollment request.")
  require (intent.agentIdentityId = some identityId)
    (conflict "Idempotency-Key was already used for a different Agent installation enrollment.")

def createAdditionalAgentEnrollmentIntent (identityId protocolAgentId actorUserId : Id)
    (idempotencyKey : String) : Identities EnrollmentIntent := do
  let existing ← ask (·.findIntentByIdempotencyKey protocolAgentId idempotencyKey)
  match existing with
  | some existing =>
    requireMatchingInstallationEnrollment existing identityId actorUserId
    return existing
  | none =>
    let identity ← requireIdentity identityId
    assertController identity.ownerUserId actorUserId
    assertProtocolAgentCanEnroll protocolAgentId actorUserId
    let now ← onAccess Access.clock
    let id ← onAccess Access.generateId
    let (intent, _) ← createIntentIdempotently {
      id := id
      agentIdentityId := some identityId
      ownerUserId := identity.ownerUserId
      protocolAgentId := protocolAgentId
      idempotencyKey := some idempotencyKey
      status := .pending
      createdByUserId := actorUserId
      approvedByUserId := none
      expiresAt := now + enrollmentLifetimeMs
      approvedAt := none }
    requireMatchingInstallationEnrollment intent identityId actorUserId
    return intent

def enrollmentTarget (intent : EnrollmentIntent) (issuer : String) : Identities EnrollmentTarget :=
  match intent.agentIdentityId with
  | some identityId => do
    let existing ← requireIdentity identityId
    require (intent.ownerUserId = existing.ownerUserId)
      (forbidden "Enrollment intent does not belong to the Agent identity home space.")
    return .existing identityId
  | none => do
    let identityId ← onAccess Access.generateId
    let subject ← onAccess Access.generateId
    return .created ⟨identityId, issuer, subject, intent.ownerUserId⟩

def approveAgentEnrollment (intentId : Id) (issuer : String) (actorUserId : Id) :
    Identities AgentIdentity := do
  let intent ← ask (·.findIntent intentId)
  let intent ← orThrow intent (notFound "Agent enrollment intent was not found.")
  require (intent.status = .pending) (badRequest "Agent enrollment intent is no longer pending.")
  let now ← onAccess Access.clock
  require (now < intent.expiresAt) (badRequest "Agent enrollment intent has expired.")
  assertController intent.ownerUserId actorUserId
  assertProtocolAgentCanEnroll intent.protocolAgentId actorUserId
  let now ← onAccess Access.clock
  let target ← enrollmentTarget intent issuer
  let bindingId ← onAccess Access.generateId
  approveIntent {
    intentId := intentId
    target := target
    bindingId := bindingId
    protocolAgentId := intent.protocolAgentId
    approvedByUserId := actorUserId
    approvedAt := now }

section Lifecycle

def recoverAgentIdentity (identityId actorUserId : Id) : Identities Unit := do
  let identity ← requireControlledIdentity identityId actorUserId
  require (identity.status = .active) (badRequest "Only an active Agent identity can be recovered.")
  let now ← onAccess Access.clock
  let deactivated ← deactivateIdentity identityId now true
  require (deactivated = true) (badRequest "Only an active Agent identity can be recovered.")
  onAccess (revokeAgentResourceAccess identityId)

def deactivateFound (identityId : Id) : Identities Unit := do
  let now ← onAccess Access.clock
  let deactivated ← deactivateIdentity identityId now false
  require (deactivated = true) (notFound "Agent identity was not found.")

def deactivateAgentIdentity (identityId actorUserId : Id) : Identities Unit := do
  let _ ← requireControlledIdentity identityId actorUserId
  deactivateFound identityId

def emergencyDeactivateAgentIdentity (identityId : Id) : Identities Unit := do
  let _ ← requireIdentity identityId
  deactivateFound identityId

def activateFound (identity : AgentIdentity) : Identities Unit :=
  if identity.status = .active then return ()
  else do
    let activated ← activateIdentity identity.id
    require (activated = true)
      (badRequest "Agent identity requires a new installation before it can be activated.")

def activateAgentIdentity (identityId actorUserId : Id) : Identities Unit := do
  activateFound (← requireControlledIdentity identityId actorUserId)

def emergencyActivateAgentIdentity (identityId : Id) : Identities Unit := do
  activateFound (← requireIdentity identityId)

def deleteFound (identityId : Id) : Identities Unit := do
  let now ← onAccess Access.clock
  let deleted ← deleteIdentity identityId now
  require (deleted = true) (notFound "Agent identity was not found.")
  onAccess (revokeAgentResourceAccess identityId)

def deleteAgentIdentity (identityId actorUserId : Id) : Identities Unit := do
  let _ ← requireControlledIdentity identityId actorUserId
  deleteFound identityId

def emergencyDeleteAgentIdentity (identityId : Id) : Identities Unit := do
  let _ ← requireIdentity identityId
  deleteFound identityId

end Lifecycle

section Program

variable [Locale]

/-- The calls on identities, every call of agent access, and the environment: a login that
enrolls, intents for new identities, and the registration of protocol agents. -/
inductive Call where
  | createAdditionalAgentEnrollmentIntent (identityId protocolAgentId actorUserId : Id)
      (idempotencyKey : String)
  | approveAgentEnrollment (intentId : Id) (issuer : String) (actorUserId : Id)
  | recoverAgentIdentity (identityId actorUserId : Id)
  | deactivateAgentIdentity (identityId actorUserId : Id)
  | emergencyDeactivateAgentIdentity (identityId : Id)
  | activateAgentIdentity (identityId actorUserId : Id)
  | emergencyActivateAgentIdentity (identityId : Id)
  | deleteAgentIdentity (identityId actorUserId : Id)
  | emergencyDeleteAgentIdentity (identityId : Id)
  | access (call : FlareAuth.Call)
  | createIdentity (identity : NewIdentity) (bindingId protocolAgentId : Id)
  | insertIntent (row : EnrollmentIntent)
  | putAgent (row : ProtocolAgents.Agent)

def Call.program : Call → Identities Unit
  | .createAdditionalAgentEnrollmentIntent identityId protocolAgentId actorUserId key => do
    let _ ← AgentIdentities.createAdditionalAgentEnrollmentIntent identityId protocolAgentId
      actorUserId key
  | .approveAgentEnrollment intentId issuer actorUserId => do
    let _ ← AgentIdentities.approveAgentEnrollment intentId issuer actorUserId
  | .recoverAgentIdentity identityId actorUserId =>
    AgentIdentities.recoverAgentIdentity identityId actorUserId
  | .deactivateAgentIdentity identityId actorUserId =>
    AgentIdentities.deactivateAgentIdentity identityId actorUserId
  | .emergencyDeactivateAgentIdentity identityId =>
    AgentIdentities.emergencyDeactivateAgentIdentity identityId
  | .activateAgentIdentity identityId actorUserId =>
    AgentIdentities.activateAgentIdentity identityId actorUserId
  | .emergencyActivateAgentIdentity identityId =>
    AgentIdentities.emergencyActivateAgentIdentity identityId
  | .deleteAgentIdentity identityId actorUserId =>
    AgentIdentities.deleteAgentIdentity identityId actorUserId
  | .emergencyDeleteAgentIdentity identityId =>
    AgentIdentities.emergencyDeleteAgentIdentity identityId
  | .access call => do let _ ← onAccess call.program
  | .createIdentity identity bindingId protocolAgentId =>
    query (.createIdentity identity bindingId protocolAgentId) fun _ => ()
  | .insertIntent row => query (.insertIntent row) fun _ => ()
  | .putAgent row => query (.putAgent row) fun _ => ()

abbrev IdentityPool := Pool Call Site SiteOperation Failure Unit

end Program

end FlareAuth.AgentIdentities
