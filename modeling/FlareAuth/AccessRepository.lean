import FlareAuth.AccessStore
import FlareAuth.Concurrent.Batch

/-!
# The repository of agent access

Each batch of the repository, statement by statement. An insert selects its row
from the tables that guard it, an update names its row by a condition, and only
a violated unique index makes a batch fail.
-/

namespace FlareAuth

open Concurrent Relational

abbrev StoreBatch := Batch Store Failure

def uniqueViolation : Failure := .error "UNIQUE constraint failed"

/-- The primary key and the unique indexes of the active entitlements. -/
def KeysUnique (rows : List ScopeEntitlement) : Prop :=
  (rows.map (·.id)).Nodup ∧ (rows.filterMap (·.activeKey)).Nodup

instance (rows : List ScopeEntitlement) : Decidable (KeysUnique rows) :=
  inferInstanceAs (Decidable (_ ∧ _))

structure ApprovalDecision where
  approvedEntitlements : List ApprovedEntitlement
  connectionId : Option Id
  authorizationDetails : List AuthorizationDetail
  decidedAt : ℕ

inductive AccessDecision where
  | denied (decidedAt : ℕ)
  | approved (decision : ApprovalDecision)

structure EntitlementUpdate where
  id : Id
  lifetime : Lifetime
  authorizationContextHash : Digest String

structure Approval where
  entitlements : List ScopeEntitlement
  updates : List EntitlementUpdate
  requestId : Id
  decision : ApprovalDecision
  audit : AuditEvent

inductive ApprovalResult where
  | approved (entitlements : List ScopeEntitlement) (request : AgentAccessRequest)
  | entitlementsChanged
  | resourceUnavailable
  | requestChanged

structure TokenLeaseBoundary where
  agentIdentityId : Id
  resourceServerId : Id
  connectionId : Option Id
  authorizationContextHash : Digest String
  scopes : List String

structure Issuance where
  lease : TokenLease
  boundary : TokenLeaseBoundary
  consumeEntitlementIds : List Id
  now : ℕ
  audit : AuditEvent

/-- `ORDER BY created_at`. -/
def byCreation {α : Type} (createdAt : α → ℕ) (rows : List α) : List α :=
  rows.insertionSort fun x y => createdAt x ≤ createdAt y

@[simp] theorem mem_byCreation {α : Type} {createdAt : α → ℕ} {rows : List α} {r : α} :
    r ∈ byCreation createdAt rows ↔ r ∈ rows := List.mem_insertionSort _

namespace Store

def findAccessRequest (s : Store) (id : Id) : Option AgentAccessRequest :=
  lookup AgentAccessRequest.id id s.requests

def findEntitlement (s : Store) (id : Id) : Option ScopeEntitlement :=
  lookup ScopeEntitlement.id id s.entitlements

def findTokenLease (s : Store) (id : Id) : Option TokenLease := lookup TokenLease.id id s.leases

def listActiveEntitlementsByAgent (s : Store) (agentIdentityId : Id) (now : ℕ) :
    List ScopeEntitlement :=
  byCreation ScopeEntitlement.createdAt
    (s.entitlements.filter fun e => e.agentIdentityId = some agentIdentityId ∧ e.active now)

def listActiveEntitlementsByConnection (s : Store) (connectionId : Id) (now : ℕ) :
    List ScopeEntitlement :=
  byCreation ScopeEntitlement.createdAt
    (s.entitlements.filter fun e => e.connectionId = some connectionId ∧ e.active now)

def listActiveUserScopeEntitlements (s : Store) (userId resourceServerId : Id) (now : ℕ) :
    List ScopeEntitlement :=
  s.entitlements.filter fun e =>
    e.userId = some userId ∧ e.resourceServerId = resourceServerId ∧ e.active now

def listActiveApplicationScopeEntitlements (s : Store) (applicationId resourceServerId : Id)
    (now : ℕ) : List ScopeEntitlement :=
  s.entitlements.filter fun e =>
    e.subject = .application applicationId ∧ e.resourceServerId = resourceServerId ∧ e.active now

def listPendingAccessRequestsByAgent (s : Store) (agentIdentityId : Id) (now : ℕ) :
    List AgentAccessRequest :=
  byCreation AgentAccessRequest.createdAt (s.requests.filter fun r =>
    r.agentIdentityId = agentIdentityId ∧ r.status = .pending ∧ now < r.expiresAt)

def listActiveTokenLeasesByEntitlement (s : Store) (entitlementId : Id) (now : ℕ) :
    List TokenLease :=
  s.leases.filter fun l => entitlementId ∈ l.entitlementIds ∧ l.active now

def listActiveTokenLeasesByBinding (s : Store) (bindingId : Id) (now : ℕ) : List TokenLease :=
  s.leases.filter fun l => l.bindingId = bindingId ∧ l.active now

def findActiveTokenLeaseByTokenHash (s : Store) (tokenHash : Digest AccessToken) (now : ℕ) :
    Option TokenLease :=
  s.leases.find? fun l => l.tokenHash = tokenHash ∧ l.active now

/-- `column <> value`, which is not true of a row whose column is null. -/
def sqlNotEqual (column : Option Id) (value : Id) : Bool := column.elim false (· != value)

/-- The entitlement that an approval names is active and agrees with the request. -/
def approvedEntitlementHolds (s : Store) (request : AgentAccessRequest) (connectionId : Option Id)
    (approved : ApprovedEntitlement) : Bool :=
  (s.findEntitlement approved.entitlementId).elim false fun e =>
    !sqlNotEqual e.agentIdentityId request.agentIdentityId &&
      e.resourceServerId == request.resourceId && e.connectionId == connectionId &&
      e.scope == approved.scope && e.ended.isNone

def decisionHolds (s : Store) (request : AgentAccessRequest) : AccessDecision → Bool
  | .denied _ => true
  | .approved d =>
    (s.directory.activeResource request.resourceId).isSome &&
      d.approvedEntitlements.length == request.scopes.length &&
      d.approvedEntitlements.all (s.approvedEntitlementHolds request d.connectionId)

/-- The request and the resource which the insert of an approved entitlement selects from. -/
def entitlementInsertable (s : Store) (input : ScopeEntitlement) (requestId : Id) : Bool :=
  (s.directory.activeResource input.resourceServerId).isSome &&
    (s.findAccessRequest requestId).any (fun r =>
      r.resourceId == input.resourceServerId && some r.agentIdentityId == input.agentIdentityId &&
        r.status == .pending) &&
    input.connectionId.all s.directory.activeConnection

/-- A supplied entitlement is active, of the boundary and for one of its scopes. -/
def suppliedEntitlementHolds (s : Store) (boundary : TokenLeaseBoundary) (createdAt : ℕ)
    (id : Id) : Bool :=
  (s.findEntitlement id).elim false fun e =>
    !sqlNotEqual e.agentIdentityId boundary.agentIdentityId &&
      e.resourceServerId == boundary.resourceServerId && e.connectionId == boundary.connectionId &&
      e.authorizationContextHash == boundary.authorizationContextHash && e.active createdAt &&
      boundary.scopes.contains e.scope

def suppliesScope (s : Store) (ids : List Id) (scope : String) : Bool :=
  ids.any fun id => (s.findEntitlement id).any fun e => e.scope == scope

/-- The condition of the conditional insert of a token lease, for a request it selects. -/
def leaseInsertable (s : Store) (input : TokenLease) (boundary : TokenLeaseBoundary)
    (request : AgentAccessRequest) : Bool :=
  (request.status == .approved || request.status == .consumed) &&
    request.agentIdentityId == boundary.agentIdentityId &&
    request.resourceId == boundary.resourceServerId &&
    request.connectionId == boundary.connectionId &&
    input.entitlementIds.length == boundary.scopes.length &&
    input.entitlementIds.all (s.suppliedEntitlementHolds boundary input.createdAt) &&
    boundary.scopes.all (s.suppliesScope input.entitlementIds) &&
    request.connectionId.all s.directory.activeConnection &&
    (s.directory.activeResource request.resourceId).isSome

end Store

def AgentAccessRequest.decide (request : AgentAccessRequest) :
    AccessDecision → AgentAccessRequest
  | .denied decidedAt =>
    { request with status := .denied, approvedEntitlements := [], decidedAt := some decidedAt }
  | .approved d =>
    { request with
      status := .approved
      approvedEntitlements := d.approvedEntitlements
      connectionId := d.connectionId
      authorizationDetails := d.authorizationDetails
      decidedAt := some d.decidedAt }

/-- The row that an approval inserts. -/
def ScopeEntitlement.grantedUnder (e : ScopeEntitlement) (requestId : Id) : ScopeEntitlement :=
  { e with sourceAccessRequestId := some requestId, ended := none }

def ScopeEntitlement.finish (e : ScopeEntitlement) (reason : EndReason) (now : ℕ) :
    ScopeEntitlement := { e with ended := some (now, reason) }

namespace Statement

/-- One audit row for each row that the condition selects, which is one or none. -/
def insertAudit (audit : AuditEvent) (selected : Store → Bool) : StoreBatch Unit :=
  Batch.modify fun s =>
    if selected s then { s with audits := s.audits ++ [audit] } else s

/-- A rewritten entitlement table, which a violated index refuses. -/
def setEntitlements (f : List ScopeEntitlement → List ScopeEntitlement) : StoreBatch Unit :=
  fun s =>
    if KeysUnique (f s.entitlements) then .ok ((), { s with entitlements := f s.entitlements })
    else .error uniqueViolation

def insertAccessRequest (input : AgentAccessRequest) : StoreBatch (Option AgentAccessRequest) :=
  fun s =>
    if (s.directory.activeResource input.resourceId).isNone then .ok (none, s)
    else if s.requests.any fun r => r.id == input.id || r.approvalToken == input.approvalToken then
      .error uniqueViolation
    else .ok (some input, { s with requests := s.requests ++ [input] })

def updateAccessRequestDecision (id : Id) (decision : AccessDecision) :
    StoreBatch (Option AgentAccessRequest) := fun s =>
  let selected := fun q => q.id == id && q.status == .pending && s.decisionHolds q decision
  .ok ((s.requests.find? selected).map (·.decide decision),
    { s with requests := updateWhere selected (·.decide decision) s.requests })

/-- `INSERT ... ON CONFLICT DO NOTHING` of an entitlement under a pending request. -/
def insertEntitlement (requestId : Id) (input : ScopeEntitlement) :
    StoreBatch (Option ScopeEntitlement) := fun s =>
  if s.entitlementInsertable input requestId ∧
      KeysUnique (s.entitlements ++ [input.grantedUnder requestId]) then
    .ok (some (input.grantedUnder requestId),
      { s with entitlements := s.entitlements ++ [input.grantedUnder requestId] })
  else .ok (none, s)

/-- The number of rows that an update of an active entitlement changes. -/
def updateEntitlement (update : EntitlementUpdate) : StoreBatch ℕ := do
  let count ← Batch.read fun s =>
    s.entitlements.countP fun e => e.id == update.id && e.ended.isNone
  setEntitlements (updateWhere (fun e => e.id == update.id && e.ended.isNone) fun e =>
    { e with
      lifetime := update.lifetime
      authorizationContextHash := update.authorizationContextHash })
  return count

def endEntitlements (selected : ScopeEntitlement → Bool) (reason : EndReason) (now : ℕ) :
    StoreBatch Unit :=
  Batch.modify fun s =>
    { s with entitlements := updateWhere selected (·.finish reason now) s.entitlements }

def revokeTokenLeases (selected : TokenLease → Bool) (now : ℕ) : StoreBatch Unit :=
  Batch.modify fun s =>
    { s with leases := updateWhere selected (fun l => { l with revokedAt := some now }) s.leases }

def insertTokenLease (input : TokenLease) (boundary : TokenLeaseBoundary) :
    StoreBatch (Option TokenLease) := fun s =>
  if (s.findAccessRequest input.requestId).any (s.leaseInsertable input boundary) then
    if s.leases.any fun l => l.id == input.id || l.tokenHash == input.tokenHash then
      .error uniqueViolation
    else .ok (some input, { s with leases := s.leases ++ [input] })
  else .ok (none, s)

def consumeAccessRequest (requestId leaseId : Id) : StoreBatch Unit :=
  Batch.modify fun s =>
    if (s.findTokenLease leaseId).isSome then
      { s with
        requests := updateWhere (fun r => r.id == requestId && r.status == .approved)
          (fun r => { r with status := .consumed }) s.requests }
    else s

/-- Ends the consumed entitlements if the lease of the batch is there. -/
def consumeEntitlements (ids : List Id) (leaseId : Id) (now : ℕ) : StoreBatch Unit :=
  Batch.modify fun s =>
    if (s.findTokenLease leaseId).isSome then
      { s with
        entitlements := updateWhere (fun e => ids.contains e.id && e.ended.isNone)
          (·.finish .consumed now) s.entitlements }
    else s

end Statement

open Statement

namespace Repository

def createAccessRequestWithAudit (input : AgentAccessRequest) (audit : AuditEvent) :
    StoreBatch (Option AgentAccessRequest) := do
  let created ← insertAccessRequest input
  insertAudit audit fun s => (s.findAccessRequest input.id).isSome
  return created

def decideAccessRequestWithAudit (id : Id) (decision : AccessDecision) (audit : AuditEvent) :
    StoreBatch (Option AgentAccessRequest) := do
  insertAudit audit fun s => (s.findAccessRequest id).any fun r => r.status == .pending
  updateAccessRequestDecision id decision

def approveAccessRequestWithEntitlements (a : Approval) : StoreBatch ApprovalResult := do
  let inserted ← Batch.all (a.entitlements.map (insertEntitlement a.requestId))
  let updated ← Batch.all (a.updates.map updateEntitlement)
  let request ← updateAccessRequestDecision a.requestId (.approved a.decision)
  insertAudit a.audit fun s =>
    (s.findAccessRequest a.requestId).any fun r => r.status == .approved
  if inserted.reduceOption.length ≠ a.entitlements.length then return .entitlementsChanged
  else if updated.any (· ≠ 1) then return .resourceUnavailable
  else
    match request with
    | none => return .requestChanged
    | some r => return .approved inserted.reduceOption r

def endEntitlement (id : Id) (reason : EndReason) (now : ℕ) : StoreBatch Bool := do
  let found ← Batch.read fun s => (s.findEntitlement id).any fun e => e.ended.isNone
  endEntitlements (fun e => e.id == id && e.ended.isNone) reason now
  return found

def endEntitlementWithAudit (id : Id) (reason : EndReason) (tokenLeaseIds : List Id) (now : ℕ)
    (audit : AuditEvent) : StoreBatch Bool := do
  insertAudit audit fun s => (s.findEntitlement id).any fun e => e.ended.isNone
  let found ← endEntitlement id reason now
  revokeTokenLeases (fun l => tokenLeaseIds.contains l.id && l.revokedAt.isNone) now
  return found

def issueTokenLeaseWithAudit (i : Issuance) : StoreBatch (Option TokenLease) := do
  let lease ← insertTokenLease i.lease i.boundary
  consumeAccessRequest i.lease.requestId i.lease.id
  consumeEntitlements i.consumeEntitlementIds i.lease.id i.now
  insertAudit i.audit fun s => (s.findTokenLease i.lease.id).isSome
  return lease

def revokeTokenLease (id : Id) (now : ℕ) : StoreBatch Unit :=
  revokeTokenLeases (fun l => l.id == id && decide (now < l.expiresAt)) now

/-- The insert of `createScopeEntitlement`, `ON CONFLICT DO NOTHING`. -/
def insertScopeEntitlement (input : ScopeEntitlement) : StoreBatch (Option ScopeEntitlement) :=
  fun s =>
    if KeysUnique (s.entitlements ++ [input]) then
      .ok (some input, { s with entitlements := s.entitlements ++ [input] })
    else .ok (none, s)

/-- Ends an expired equivalent entitlement and inserts its replacement. -/
def replaceExpiredEntitlement (existingId : Id) (input : ScopeEntitlement) (now : ℕ) :
    StoreBatch Unit := do
  endEntitlements (fun e => e.id == existingId) .expired now
  setEntitlements (· ++ [input])

/-- The update of `createScopeEntitlement`, which does not ask whether the row has ended. -/
def strengthenEntitlement (id : Id) (lifetime : Option Lifetime) (hash : Digest String) :
    StoreBatch (Option ScopeEntitlement) := do
  setEntitlements (updateWhere (fun e => e.id == id) fun e =>
    { e with lifetime := lifetime.getD e.lifetime, authorizationContextHash := hash })
  Batch.read fun s => s.findEntitlement id

def revokeConnection (id : Id) (now : ℕ) : StoreBatch Unit :=
  Batch.modify fun s => { s with directory := { s.directory with
    authorizations := updateWhere (fun a => a.id == id)
      (fun a => { a with status := .revoked, revokedAt := some now }) s.directory.authorizations
    credentials := updateWhere (fun c => c.providerResourceAuthorizationId == id)
      (fun c => { c with status := .revoked }) s.directory.credentials } }

def revokeProviderConnection (id ownerUserId : Id) (accountId : Option Id) : StoreBatch Unit :=
  Batch.modify fun s => { s with directory := { s.directory with
    providerConnections := updateWhere (fun c => c.id == id && c.owner == .user ownerUserId)
      (fun c => { c with authenticationAccountId := none, status := .revoked })
      s.directory.providerConnections
    accounts := s.directory.accounts.filter fun a => some a.id != accountId } }

/-- The batch of a connector reset, for the connections it selected before. -/
def revokeResourceAuthorizations (ids : List Id) (now : ℕ) : StoreBatch Unit := do
  Batch.modify fun s => { s with
    requests := updateWhere (fun r => r.connectionId.any ids.contains)
      (fun r => { r with connectionId := none }) s.requests }
  setEntitlements (updateWhere (fun e => e.connectionId.any ids.contains) fun e =>
    { e with connectionId := none })
  Batch.modify fun s => { s with directory := { s.directory with
    credentials := updateWhere (fun c => ids.contains c.providerResourceAuthorizationId)
      (fun c => { c with status := .revoked }) s.directory.credentials
    authorizations := updateWhere (fun a => ids.contains a.id)
      (fun a => { a with status := .revoked, revokedAt := some now })
      s.directory.authorizations } }

/-- The statements of the deletion of a Resource Server that reach agent access. -/
def deleteResource (id : Id) (now : ℕ) (audit : AuditEvent) : StoreBatch Unit := do
  insertAudit audit fun s => (s.directory.findResource id).isSome
  Batch.modify fun s => { s with directory := { s.directory with
    resources := updateWhere (fun r => r.id == id && r.deletedAt.isNone)
      (fun r => { r with enabled := false, deletedAt := some now }) s.directory.resources
    authorizations := updateWhere (fun a => a.resourceId == id && a.status == .active)
      (fun a => { a with status := .revoked, revokedAt := some now })
      s.directory.authorizations } }
  Batch.modify fun s => { s with
    requests := updateWhere (fun r => r.resourceId == id && r.status == .pending)
      (fun r => { r with status := .denied, decidedAt := some now }) s.requests }
  endEntitlements (fun e => e.resourceServerId == id && e.ended.isNone) .revoked now
  let onResource ← Batch.read fun s =>
    (s.requests.filter fun r => r.resourceId == id).map (·.id)
  revokeTokenLeases (fun l => onResource.contains l.requestId && l.revokedAt.isNone) now

/-- The entitlements which an update of a Resource Server or of its registry ends by id. -/
def endEntitlementsById (ids : List Id) (now : ℕ) : StoreBatch Unit :=
  endEntitlements (fun e => ids.contains e.id) .revoked now

end Repository

end FlareAuth
