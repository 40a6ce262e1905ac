import FlareAuth.AccessRevocation
import FlareAuth.Relational.Ranked
import Mathlib.Data.Prod.Lex
import Mathlib.Data.String.Basic

/-!
# Permissions of an Agent by list and by identifier

The list of an Agent's permissions is read page by page, the newest first. The point
request reads the first hundred of the permissions on one Resource Server and looks for
its permission there.
-/

namespace FlareAuth

open Concurrent Relational

inductive ListStatus where
  | active
  | inactive
  deriving DecidableEq

inductive LifecycleStatus where
  | active
  | ended
  deriving DecidableEq

def resourceScopeEntitlementLifecycle (e : ScopeEntitlement) (now : ℕ) :
    LifecycleStatus × Option EndReason :=
  match e.ended with
  | some (_, reason) => (.ended, some reason)
  | none =>
    if e.expiresAt.any (· ≤ now) then (.ended, some .expired) else (.active, none)

structure AgentPermission where
  id : Id
  agentId : Id
  apiResourceId : Id
  accountConnectionId : Option Id
  resourceId : Id
  resourceIdentifier : String
  scope : String
  authorizationDetails : List AuthorizationDetail
  mode : Mode
  status : LifecycleStatus
  endReason : Option EndReason
  sourceAccessRequestId : Option Id
  expiresAt : Option ℕ
  endedAt : Option ℕ
  createdAt : ℕ
  deriving DecidableEq

structure AgentPermissionsQuery where
  agentId : Id
  resourceServerId : Option Id
  status : Option ListStatus
  page : ℕ
  pageSize : ℕ

/-- The owners whose Agents a listing is restricted to. -/
structure AgentAuthorityInventoryScope where
  ownerUserId : Option Id

structure JoinedPermission where
  entitlement : ScopeEntitlement
  identity : AgentIdentity
  resource : ApiResource

namespace Store

variable (s : Store)

def scopeEntitlementStatusCondition (status : Option ListStatus) (now : ℕ) (e : ScopeEntitlement) :
    Bool :=
  match status with
  | some .inactive => e.ended.isSome || e.expiresAt.any (· ≤ now)
  | _ => e.active now

/-- The inner joins with identities and Resource Servers that are not deleted. -/
def joined (e : ScopeEntitlement) : Option JoinedPermission := do
  let agentId ← e.agentIdentityId
  let identity ← s.directory.findIdentity agentId
  let resource ← s.directory.findResource e.resourceServerId
  return ⟨e, identity, resource⟩

def listed (query : AgentPermissionsQuery) (scope : Option AgentAuthorityInventoryScope)
    (row : JoinedPermission) : Bool :=
  row.entitlement.agentIdentityId == some query.agentId &&
    (query.resourceServerId.all fun id => row.entitlement.resourceServerId == id) &&
    (scope.all fun scope => scope.ownerUserId.any fun id => row.identity.ownerUserId == id) &&
    scopeEntitlementStatusCondition query.status s.now row.entitlement

/-- `ORDER BY created_at DESC, id DESC` -/
def recency (row : JoinedPermission) : ℕ ×ₗ String :=
  toLex (row.entitlement.createdAt, row.entitlement.id)

def listAgentPermissions (query : AgentPermissionsQuery)
    (scope : Option AgentAuthorityInventoryScope) : List JoinedPermission × ℕ :=
  let rows := (s.entitlements.filterMap s.joined).filter (s.listed query scope)
  (page query.pageSize query.page (greatestFirst recency rows), rows.length)

end Store

section Usecases

variable (s : Store)

def toAgentPermission (now : ℕ) (row : JoinedPermission) : AgentPermission :=
  let e := row.entitlement
  { id := e.id
    agentId := e.agentIdentityId.getD ""
    apiResourceId := e.resourceServerId
    accountConnectionId := e.connectionId
    resourceId := row.resource.id
    resourceIdentifier := row.resource.identifier
    scope := e.scope
    authorizationDetails := e.authorizationDetails
    mode := e.mode
    status := (resourceScopeEntitlementLifecycle e now).1
    endReason := (resourceScopeEntitlementLifecycle e now).2
    sourceAccessRequestId := e.sourceAccessRequestId
    expiresAt := e.expiresAt
    endedAt := e.ended.map (·.1)
    createdAt := e.createdAt }

def listManagementAgentPermissions (query : AgentPermissionsQuery)
    (scope : Option AgentAuthorityInventoryScope) : List AgentPermission × ℕ :=
  let result := s.listAgentPermissions query scope
  (result.1.map (toAgentPermission s.now), result.2)

end Usecases

end FlareAuth
