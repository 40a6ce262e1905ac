import FlareAuth.AccessRepository
import FlareAuth.Concurrent.Contract

/-!
# The operations of agent access

Everything that a call does to the store in one indivisible step: a read of one
table, a clock reading, an answer from outside, or one batch of the repository.
The remaining operations belong to the environment: time passes, the systems
outside change, and administration rewrites the directory.
-/

namespace FlareAuth

open Concurrent Repository

/-- What a read looks at. -/
inductive Query where
  | clock
  | directory
  | outside
  | accessRequest (id : Id)
  | pendingAccessRequests (agentIdentityId : Id) (now : ℕ)
  | entitlement (id : Id)
  | equivalentEntitlement (input : ScopeEntitlement)
  | entitlementsByAgent (agentIdentityId : Id) (now : ℕ)
  | entitlementsByConnection (connectionId : Id) (now : ℕ)
  | entitlementsByUser (userId resourceServerId : Id) (now : ℕ)
  | entitlementsByApplication (applicationId resourceServerId : Id) (now : ℕ)
  | tokenLeasesByEntitlement (entitlementId : Id) (now : ℕ)
  | tokenLeasesByBinding (bindingId : Id) (now : ℕ)
  | tokenLeaseByHash (tokenHash : Digest AccessToken) (now : ℕ)

def Store.nextId (s : Store) : Id := "id-" ++ toString s.generated

inductive Operation where
  | read (query : Query)
  | generateId
  | elapse (milliseconds : ℕ)
  | outside (world : World)
  | administer (change : DirectoryChange)
  | createAccessRequest (input : AgentAccessRequest) (audit : AuditEvent)
  | decideAccessRequest (id : Id) (decision : AccessDecision) (audit : AuditEvent)
  | approve (approval : Approval)
  | endEntitlement (id : Id) (reason : EndReason) (now : ℕ)
  | endEntitlementWithAudit (id : Id) (reason : EndReason) (tokenLeaseIds : List Id) (now : ℕ)
      (audit : AuditEvent)
  | endEntitlementsById (ids : List Id) (now : ℕ)
  | issueTokenLease (issuance : Issuance)
  | revokeTokenLease (id : Id) (now : ℕ)
  | insertScopeEntitlement (input : ScopeEntitlement)
  | replaceExpiredEntitlement (existingId : Id) (input : ScopeEntitlement) (now : ℕ)
  | strengthenEntitlement (id : Id) (lifetime : Option Lifetime) (hash : Digest String)
  | revokeConnection (id : Id) (now : ℕ)
  | revokeProviderConnection (id ownerUserId : Id) (accountId : Option Id)
  | revokeResourceAuthorizations (ids : List Id) (now : ℕ)
  | deleteResource (id : Id) (now : ℕ) (audit : AuditEvent)

def Operation.perform : Operation → Store → Store
  | .read _, s => s
  | .generateId, s => { s with generated := s.generated + 1 }
  | .elapse milliseconds, s => { s with now := s.now + milliseconds }
  | .outside world, s => { s with world := world }
  | .administer change, s => { s with directory := s.directory.change change }
  | .createAccessRequest input audit, s => (createAccessRequestWithAudit input audit).settle s
  | .decideAccessRequest id decision audit, s =>
    (decideAccessRequestWithAudit id decision audit).settle s
  | .approve approval, s => (approveAccessRequestWithEntitlements approval).settle s
  | .endEntitlement id reason now, s => (Repository.endEntitlement id reason now).settle s
  | .endEntitlementWithAudit id reason leaseIds now audit, s =>
    (Repository.endEntitlementWithAudit id reason leaseIds now audit).settle s
  | .endEntitlementsById ids now, s => (Repository.endEntitlementsById ids now).settle s
  | .issueTokenLease issuance, s => (issueTokenLeaseWithAudit issuance).settle s
  | .revokeTokenLease id now, s => (Repository.revokeTokenLease id now).settle s
  | .insertScopeEntitlement input, s => (Repository.insertScopeEntitlement input).settle s
  | .replaceExpiredEntitlement id input now, s =>
    (Repository.replaceExpiredEntitlement id input now).settle s
  | .strengthenEntitlement id lifetime hash, s =>
    (Repository.strengthenEntitlement id lifetime hash).settle s
  | .revokeConnection id now, s => (Repository.revokeConnection id now).settle s
  | .revokeProviderConnection id ownerUserId accountId, s =>
    (Repository.revokeProviderConnection id ownerUserId accountId).settle s
  | .revokeResourceAuthorizations ids now, s =>
    (Repository.revokeResourceAuthorizations ids now).settle s
  | .deleteResource id now audit, s => (Repository.deleteResource id now audit).settle s

instance : Operational Operation Store := ⟨Operation.perform⟩

theorem apply_eq (op : Operation) (s : Store) : apply op s = op.perform s := rfl

@[simp] theorem apply_read (query : Query) (s : Store) : apply (Operation.read query) s = s := rfl

def Operation.IsRead : Operation → Prop
  | .read _ => True
  | .generateId => True
  | _ => False

@[simp] theorem isRead_read (query : Query) : (Operation.read query).IsRead := trivial

@[simp] theorem isRead_generateId : Operation.generateId.IsRead := trivial

abbrev Access := Procedure Store Operation Failure

namespace Access

variable {α : Type}

def ask (query : Query) (answer : Store → α) : Access α := Procedure.query (.read query) answer

def look (answer : Directory → α) : Access α := ask .directory fun s => answer s.directory

def call (answer : World → Except Failure α) : Access α :=
  ask .outside (fun s => answer s.world) >>= Procedure.ofExcept

def clock : Access ℕ := ask .clock (·.now)

def generateId : Access Id := Procedure.query .generateId (·.nextId)

def commit (op : Operation) (batch : StoreBatch α) : Access α :=
  Procedure.step op fun s => Procedure.ofExcept (batch.outcome s)

def findAccessRequest (id : Id) : Access (Option AgentAccessRequest) :=
  ask (.accessRequest id) (·.findAccessRequest id)

def listPendingAccessRequestsByAgent (agentIdentityId : Id) (now : ℕ) :
    Access (List AgentAccessRequest) :=
  ask (.pendingAccessRequests agentIdentityId now)
    (·.listPendingAccessRequestsByAgent agentIdentityId now)

def findEntitlement (id : Id) : Access (Option ScopeEntitlement) :=
  ask (.entitlement id) (·.findEntitlement id)

def listActiveEntitlementsByAgent (agentIdentityId : Id) (now : ℕ) :
    Access (List ScopeEntitlement) :=
  ask (.entitlementsByAgent agentIdentityId now)
    (·.listActiveEntitlementsByAgent agentIdentityId now)

def listActiveEntitlementsByConnection (connectionId : Id) (now : ℕ) :
    Access (List ScopeEntitlement) :=
  ask (.entitlementsByConnection connectionId now)
    (·.listActiveEntitlementsByConnection connectionId now)

def listActiveUserScopeEntitlements (userId resourceServerId : Id) (now : ℕ) :
    Access (List ScopeEntitlement) :=
  ask (.entitlementsByUser userId resourceServerId now)
    (·.listActiveUserScopeEntitlements userId resourceServerId now)

def listActiveApplicationScopeEntitlements (applicationId resourceServerId : Id) (now : ℕ) :
    Access (List ScopeEntitlement) :=
  ask (.entitlementsByApplication applicationId resourceServerId now)
    (·.listActiveApplicationScopeEntitlements applicationId resourceServerId now)

def listActiveTokenLeasesByEntitlement (entitlementId : Id) (now : ℕ) :
    Access (List TokenLease) :=
  ask (.tokenLeasesByEntitlement entitlementId now)
    (·.listActiveTokenLeasesByEntitlement entitlementId now)

def listActiveTokenLeasesByBinding (bindingId : Id) (now : ℕ) : Access (List TokenLease) :=
  ask (.tokenLeasesByBinding bindingId now) (·.listActiveTokenLeasesByBinding bindingId now)

def findActiveTokenLeaseByTokenHash (tokenHash : Digest AccessToken) (now : ℕ) :
    Access (Option TokenLease) :=
  ask (.tokenLeaseByHash tokenHash now) (·.findActiveTokenLeaseByTokenHash tokenHash now)

def createAccessRequestWithAudit (input : AgentAccessRequest) (audit : AuditEvent) :
    Access (Option AgentAccessRequest) :=
  commit (.createAccessRequest input audit) (Repository.createAccessRequestWithAudit input audit)

def decideAccessRequestWithAudit (id : Id) (decision : AccessDecision) (audit : AuditEvent) :
    Access (Option AgentAccessRequest) :=
  commit (.decideAccessRequest id decision audit)
    (Repository.decideAccessRequestWithAudit id decision audit)

def approveAccessRequestWithEntitlements (approval : Approval) : Access ApprovalResult :=
  commit (.approve approval) (Repository.approveAccessRequestWithEntitlements approval)

def endEntitlement (id : Id) (reason : EndReason) (now : ℕ) : Access Bool :=
  commit (.endEntitlement id reason now) (Repository.endEntitlement id reason now)

def endEntitlementWithAudit (id : Id) (reason : EndReason) (tokenLeaseIds : List Id) (now : ℕ)
    (audit : AuditEvent) : Access Bool :=
  commit (.endEntitlementWithAudit id reason tokenLeaseIds now audit)
    (Repository.endEntitlementWithAudit id reason tokenLeaseIds now audit)

def issueTokenLeaseWithAudit (issuance : Issuance) : Access (Option TokenLease) :=
  commit (.issueTokenLease issuance) (Repository.issueTokenLeaseWithAudit issuance)

def revokeTokenLease (id : Id) (now : ℕ) : Access Unit :=
  commit (.revokeTokenLease id now) (Repository.revokeTokenLease id now)

end Access

end FlareAuth
