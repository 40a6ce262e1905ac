import FlareAuth.Json
import FlareAuth.Relational.Keyed
import FlareAuth.TenantInventory
import FlareAuth.Text.Like

/-!
# The listing of audit events

The route turns the tenants of its caller and the query into one filter, the repository
turns the filter into one condition for the rows of a page and for their total. The
identifiers in a query and of tenants are never empty, so a test of one is a test of
its presence.
-/

namespace FlareAuth.AuditEvents

open Relational

inductive AuditResult where
  | allowed
  | denied
  | pending
  deriving DecidableEq

/-- A row of the table, which has exactly one owner. -/
structure AuditEvent where
  id : Id
  action : String
  result : AuditResult
  realmOwned : Bool
  ownerUserId : Option Id
  ownerOrganizationId : Option Id
  controllerUserId : Option Id
  subjectIssuer : Option String
  subject : Option String
  agentIdentityId : Option Id
  hostId : Option Id
  resourceId : Option Id
  resourceConnectionId : Option Id
  accessRequestId : Option Id
  scopes : Option (List String)
  reasonCode : Option String
  metadata : Option (List (String × Json))
  occurredAt : ℕ
  exactlyOneOwner : realmOwned.toNat + ownerUserId.isSome.toNat +
    ownerOrganizationId.isSome.toNat = 1

structure Resource where
  id : Id
  identifier : String
  name : String
  deletedAt : Option ℕ
  deriving DecidableEq

structure Store where
  events : List AuditEvent
  resources : Keyed Resource.id

/-- A query as it is parsed: no text in it is empty. -/
structure AuditQuery where
  page : ℕ
  pageSize : ℕ
  organizationId : Option Id
  agentId : Option Id
  search : Option String
  action : Option String
  result : Option AuditResult
  page_pos : 0 < page
  pageSize_pos : 0 < pageSize
  texts_ne : ∀ text ∈ [organizationId, agentId, search, action], text ≠ some ""

structure Pagination where
  limit : ℕ
  offset : ℕ

def AuditQuery.pagination (query : AuditQuery) : Pagination :=
  ⟨query.pageSize, (query.page - 1) * query.pageSize⟩

section Repository

structure AuditFilter where
  agentIdentityId : Option Id
  ownerUserId : Option Id
  ownerOrganizationIds : Option (List Id)
  actions : Option (List String)
  action : Option String
  result : Option AuditResult
  search : Option String

def AuditEvent.searched (e : AuditEvent) : List String :=
  e.action :: (e.resourceId.toList ++ e.accessRequestId.toList ++ e.hostId.toList ++
    e.controllerUserId.toList ++ e.reasonCode.toList ++
    (e.scopes.map fun scopes => Json.stringify (.array (scopes.map .string))).toList)

def auditSearchCondition (resources : Keyed Resource.id) (search : String)
    (e : AuditEvent) : Bool :=
  let pattern := '%' :: (Text.escapeLike search.toList ++ ['%'])
  (e.searched.any fun text => Text.likeEscape '\\' pattern text.toList) ||
    resources.rows.any fun r => some r.id == e.resourceId &&
      (Text.likeEscape '\\' pattern r.name.toList ||
        Text.likeEscape '\\' pattern r.identifier.toList)

/-- A disjunction of no conditions is no condition. -/
def tenantCondition (filter : AuditFilter) (e : AuditEvent) : Bool :=
  match filter.ownerUserId, filter.ownerOrganizationIds with
  | none, none => true
  | some userId, none => e.ownerUserId == some userId
  | none, some ids => e.ownerOrganizationId.any ids.contains
  | some userId, some ids => e.ownerUserId == some userId || e.ownerOrganizationId.any ids.contains

def listCondition (resources : Keyed Resource.id) (filter : AuditFilter) (e : AuditEvent) : Bool :=
  (filter.actions.all fun actions => actions.contains e.action) &&
    (filter.action.all fun action => e.action == action) &&
    (filter.result.all fun result => e.result == result) &&
    (filter.search.all fun search => auditSearchCondition resources search e) &&
    (filter.agentIdentityId.all fun id => e.agentIdentityId == some id) &&
    tenantCondition filter e

/-- `ORDER BY occurred_at DESC LIMIT … OFFSET …` -/
def pageOf (page : Pagination) (rows : List AuditEvent) : List AuditEvent :=
  ((rows.insertionSort fun x y => y.occurredAt ≤ x.occurredAt).drop page.offset).take page.limit

structure Listed where
  items : List AuditEvent
  total : ℕ

def list (s : Store) (page : Pagination) (filter : AuditFilter) : Listed :=
  if filter.ownerOrganizationIds = some [] ∧ filter.ownerUserId = none then ⟨[], 0⟩
  else
    let rows := s.events.filter (listCondition s.resources filter)
    ⟨pageOf page rows, rows.length⟩

def findResources (s : Store) (ids : List Id) : List Resource :=
  s.resources.rows.filter fun r => ids.contains r.id && r.deletedAt.isNone

end Repository

section Route

structure ResourceSummary where
  id : Id
  identifier : String
  name : String

/-- What the response says of an event: not who owns it. -/
structure ManagementAuditEvent where
  id : Id
  action : String
  result : AuditResult
  controllerUserId : Option Id
  subjectIssuer : Option String
  subject : Option String
  agentIdentityId : Option Id
  hostId : Option Id
  resourceId : Option Id
  resourceConnectionId : Option Id
  accessRequestId : Option Id
  scopes : Option (List String)
  reasonCode : Option String
  metadata : Option (List (String × Json))
  occurredAt : ℕ
  resource : Option ResourceSummary

structure AuditEventsResponse where
  items : List ManagementAuditEvent
  page : ℕ
  pageSize : ℕ
  totalItems : ℕ
  totalPages : ℕ

def present (resources : List Resource) (e : AuditEvent) : ManagementAuditEvent :=
  ⟨e.id, e.action, e.result, e.controllerUserId, e.subjectIssuer, e.subject, e.agentIdentityId,
    e.hostId, e.resourceId, e.resourceConnectionId, e.accessRequestId, e.scopes, e.reasonCode,
    e.metadata, e.occurredAt,
    (e.resourceId.bind fun id => resources.find? fun r => r.id == id).map fun r =>
      ⟨r.id, r.identifier, r.name⟩⟩

def organizationIds (tenants : List AuthorizationTenant) : List Id :=
  tenants.filterMap fun
    | .organization id => some id
    | .user _ => none

def firstUser (tenants : List AuthorizationTenant) : Option Id :=
  tenants.findSome? fun
    | .user id => some id
    | .organization _ => none

def auditFilter (tenants : Option (List AuthorizationTenant)) (query : AuditQuery) : AuditFilter :=
  let listed :=
    match tenants with
    | some ts => some (organizationIds ts)
    | none => query.organizationId.map fun id => [id]
  let selectedOrganizationIds :=
    match query.organizationId with
    | some id => some (if listed.any fun ids => ids.contains id then [id] else [])
    | none => listed
  { agentIdentityId := query.agentId
    ownerUserId := if query.organizationId.isSome then none else tenants.bind firstUser
    ownerOrganizationIds := selectedOrganizationIds
    actions := none
    action := query.action
    result := query.result
    search := query.search }

/-- Only who may read the audit events of the Agent's user may ask for one Agent. -/
def checkAgent (d : Directory) (p : Principal) (agentId : Option Id) : Except Failure Unit :=
  match agentId with
  | none => .ok ()
  | some id =>
    match d.findIdentity id with
    | none => .error (notFound "Agent identity was not found.")
    | some agent => authorizeUser d p agent.ownerUserId "audit-events:read"

def listAuditEvents (d : Directory) (p : Principal) (query : AuditQuery) (s : Store) :
    Except Failure AuditEventsResponse := do
  let tenants ← authorizedTenantInventory d p "audit-events:read"
  checkAgent d p query.agentId
  let page := query.pagination
  let result := list s page (auditFilter tenants query)
  let resources := findResources s (Text.unique (result.items.filterMap (·.resourceId)))
  return ⟨result.items.map (present resources), page.offset / page.limit + 1, page.limit,
    result.total, (result.total + page.limit - 1) / page.limit⟩

end Route

end FlareAuth.AuditEvents
