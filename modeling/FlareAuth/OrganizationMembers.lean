import FlareAuth.Concurrent.Batch
import FlareAuth.Concurrent.Pool
import FlareAuth.Directory
import FlareAuth.Failure
import FlareAuth.Text.Like

/-!
# Members of Organizations

The roles of a member are one comma joined text. The statements that demote or
remove a member look for another owner with a LIKE pattern on that text, inside
the statement, so that no interleaving leaves an Organization without an owner.
-/

namespace FlareAuth.Membership

open Concurrent Procedure Relational

/-- The characters of a segment of a role key. -/
def isKeyCharacter (c : Char) : Bool := c.isLower || c.isDigit

/-- The regular expression of role keys, read from where a segment must start or may go on. -/
def isRoleKeyFrom : Bool → List Char → Bool
  | start, [] => !start
  | start, c :: cs =>
    if isKeyCharacter c then isRoleKeyFrom false cs
    else (c == '-' || c == '_') && !start && isRoleKeyFrom true cs

/-- `roleKeySchema`. -/
def isRoleKey (key : String) : Bool :=
  decide (key.toList.length ≤ 100) && isRoleKeyFrom true key.toList

structure RoleKey where
  text : String
  valid : isRoleKey text = true
  deriving DecidableEq

def predefinedOrganizationRoleKeys : List RoleKey :=
  [⟨"owner", by decide⟩, ⟨"admin", by decide⟩, ⟨"developer", by decide⟩, ⟨"member", by decide⟩]

def serializeRoles (roles : List String) : String :=
  String.ofList ([','].intercalate ((Text.sort (Text.unique roles)).map String.toList))

def deserializeRoles (value : String) : List String :=
  Text.sort (Text.unique (((value.toList.splitOn ',').map fun role =>
    String.ofList (Text.trim role)).filter (· ≠ "")))

structure MemberRow where
  id : Id
  organizationId : Id
  userId : Id
  role : String
  title : Option String
  createdAt : ℕ
  updatedAt : ℕ

/-- `toMember`: the roles which a member holds. -/
def MemberRow.roles (m : MemberRow) : List String := deserializeRoles m.role

/-- The SQL test for a role: the text between commas is like the name between commas. -/
def MemberRow.hasRole (m : MemberRow) (name : String) : Bool :=
  Text.like (Text.namePattern name.toList) (',' :: (m.role.toList ++ [',']))

structure TeamMember where
  id : Id
  teamId : Id
  userId : Id

structure Session where
  id : Id
  userId : Id
  activeOrganizationId : Option Id
  activeTeamId : Option Id

structure RefreshToken where
  id : Id
  clientId : Id
  userId : Id
  revoked : Option ℕ

structure Application where
  oauthClientId : Id
  ownerOrganizationId : Id
  visibility : Visibility

structure Audit where
  id : Id
  action : String
  ownerOrganizationId : Id
  controllerUserId : Id
  memberId : Option Id
  previousRoles : List String
  roles : List String
  occurredAt : ℕ

structure Store where
  now : ℕ
  generated : ℕ
  users : List Id
  organizations : List Organization
  organizationRoles : List (Id × RoleKey)
  members : List MemberRow
  teams : List (Id × Id)
  teamMembers : List TeamMember
  sessions : List Session
  refreshTokens : List RefreshToken
  applications : List Application
  audits : List Audit

namespace Store

def findOrganization (s : Store) (id : Id) : Option Organization :=
  s.organizations.find? fun o => o.id = id

def findMember (s : Store) (id : Id) : Option MemberRow := s.members.find? fun m => m.id = id

def countMembersByRole (s : Store) (organizationId : Id) (role : String) : ℕ :=
  (s.members.filter fun m => m.organizationId = organizationId ∧ m.hasRole role = true).length

def listOrganizationRoles (s : Store) (organizationId : Id) : List RoleKey :=
  (s.organizationRoles.filter fun r => r.1 = organizationId).map (·.2)

/-- The condition that a change which takes the owner role away leaves another owner. -/
def lastOwnerGuard (s : Store) (organizationId memberId : Id) (m : MemberRow) : Bool :=
  !m.hasRole "owner" || s.members.any fun other =>
    other.organizationId == organizationId && other.id != memberId && other.hasRole "owner"

/-- The primary key, the unique index and the foreign keys of a member row. -/
def memberInsertable (s : Store) (m : MemberRow) : Bool :=
  s.members.all (fun other => other.id != m.id &&
    !(other.organizationId == m.organizationId && other.userId == m.userId)) &&
    (s.findOrganization m.organizationId).isSome && s.users.contains m.userId

end Store

abbrev StoreBatch := Batch Store Failure

namespace Repository

def insertMember (m : MemberRow) : StoreBatch Unit := fun s =>
  if s.memberInsertable m then .ok ((), { s with members := s.members ++ [m] })
  else .error (.error "constraint failed")

def insertOrganization (o : Organization) : StoreBatch Unit := fun s =>
  if s.organizations.all fun other => other.id != o.id && other.slug != o.slug then
    .ok ((), { s with organizations := s.organizations ++ [o] })
  else .error (.error "constraint failed")

def createOrganization (organization : Organization) (ownerId userId : Id) (roles : List RoleKey)
    (now : ℕ) : StoreBatch Unit := do
  insertOrganization organization
  insertMember ⟨ownerId, organization.id, userId, serializeRoles (roles.map (·.text)),
    none, now, now⟩

def createOrganizationRole (organizationId : Id) (key : RoleKey) (audit : Audit) :
    StoreBatch Unit := fun s =>
  if (organizationId, key) ∈ s.organizationRoles then
    .error (conflict ("Role key \"" ++ key.text ++ "\" is already in use."))
  else .ok ((), { s with
    organizationRoles := s.organizationRoles ++ [(organizationId, key)]
    audits := s.audits ++ [audit] })

def addMember (id organizationId userId : Id) (roles : List RoleKey) (title : Option String)
    (now : ℕ) : StoreBatch Unit :=
  insertMember ⟨id, organizationId, userId, serializeRoles (roles.map (·.text)), title, now, now⟩

/-- A title that is not in the patch stays. -/
def updateMember (id : Id) (title : Option (Option String)) (now : ℕ) : StoreBatch Unit :=
  Batch.modify fun s => { s with
    members := updateWhere (fun m => m.id == id)
      (fun m => { m with title := title.getD m.title, updatedAt := now }) s.members }

def rolesCondition (s : Store) (organizationId memberId : Id) (roles : List RoleKey)
    (expectedUpdatedAt : ℕ) (m : MemberRow) : Bool :=
  m.id == memberId && m.organizationId == organizationId && m.updatedAt == expectedUpdatedAt &&
    ((roles.map (·.text)).contains "owner" || s.lastOwnerGuard organizationId memberId m)

def replaceMemberRoles (organizationId memberId : Id) (roles : List RoleKey)
    (expectedUpdatedAt : ℕ) (audit : Audit) : StoreBatch Bool := do
  let found ← Batch.read fun s =>
    s.members.filter (rolesCondition s organizationId memberId roles expectedUpdatedAt)
  Batch.modify fun s => { s with audits := s.audits ++ found.map fun _ => audit }
  Batch.modify fun s => { s with
    members := updateWhere (rolesCondition s organizationId memberId roles expectedUpdatedAt)
      (fun m => { m with
        role := serializeRoles (roles.map (·.text))
        updatedAt := audit.occurredAt }) s.members }
  return !found.isEmpty

def removalCondition (s : Store) (organizationId memberId : Id) (expectedUpdatedAt : ℕ)
    (m : MemberRow) : Bool :=
  m.id == memberId && m.organizationId == organizationId && m.updatedAt == expectedUpdatedAt &&
    s.lastOwnerGuard organizationId memberId m

def removeMember (organizationId memberId : Id) (expectedUpdatedAt : ℕ) (audit : Audit)
    (now : ℕ) : StoreBatch Bool := do
  let found ← Batch.read fun s =>
    s.members.filter (removalCondition s organizationId memberId expectedUpdatedAt)
  let userIds := found.map (·.userId)
  Batch.modify fun s => { s with audits := s.audits ++ found.map fun _ => audit }
  Batch.modify fun s => { s with
    teamMembers := s.teamMembers.filter fun t => !(userIds.contains t.userId &&
      s.teams.any fun team => team.1 == t.teamId && team.2 == organizationId) }
  Batch.modify fun s => { s with
    refreshTokens := updateWhere
      (fun t => userIds.contains t.userId && t.revoked.isNone && s.applications.any fun a =>
        a.oauthClientId == t.clientId && a.ownerOrganizationId == organizationId &&
          a.visibility == .privateResource)
      (fun t => { t with revoked := some now }) s.refreshTokens }
  Batch.modify fun s => { s with
    sessions := updateWhere
      (fun x => userIds.contains x.userId && x.activeOrganizationId == some organizationId)
      (fun x => { x with activeOrganizationId := none, activeTeamId := none }) s.sessions }
  Batch.modify fun s => { s with
    members := s.members.filter fun m =>
      !removalCondition s organizationId memberId expectedUpdatedAt m }
  return !found.isEmpty

end Repository

inductive Operation where
  | read
  | generateId
  | elapse (milliseconds : ℕ)
  | setClock (now : ℕ)
  | createOrganization (organization : Organization) (ownerId userId : Id) (roles : List RoleKey)
      (now : ℕ)
  | createOrganizationRole (organizationId : Id) (key : RoleKey) (audit : Audit)
  | addMember (id organizationId userId : Id) (roles : List RoleKey) (title : Option String)
      (now : ℕ)
  | updateMember (id : Id) (title : Option (Option String)) (now : ℕ)
  | replaceMemberRoles (organizationId memberId : Id) (roles : List RoleKey)
      (expectedUpdatedAt : ℕ) (audit : Audit)
  | removeMember (organizationId memberId : Id) (expectedUpdatedAt : ℕ) (audit : Audit) (now : ℕ)

def Operation.perform : Operation → Store → Store
  | .read, s => s
  | .generateId, s => { s with generated := s.generated + 1 }
  | .elapse milliseconds, s => { s with now := s.now + milliseconds }
  | .setClock now, s => { s with now := now }
  | .createOrganization o ownerId userId roles now, s =>
    (Repository.createOrganization o ownerId userId roles now).settle s
  | .createOrganizationRole organizationId key audit, s =>
    (Repository.createOrganizationRole organizationId key audit).settle s
  | .addMember id organizationId userId roles title now, s =>
    (Repository.addMember id organizationId userId roles title now).settle s
  | .updateMember id title now, s => (Repository.updateMember id title now).settle s
  | .replaceMemberRoles organizationId memberId roles expectedUpdatedAt audit, s =>
    (Repository.replaceMemberRoles organizationId memberId roles expectedUpdatedAt audit).settle s
  | .removeMember organizationId memberId expectedUpdatedAt audit now, s =>
    (Repository.removeMember organizationId memberId expectedUpdatedAt audit now).settle s

instance : Operational Operation Store := ⟨Operation.perform⟩

abbrev Members := Procedure Store Operation Failure

section Usecases

variable {α : Type}

def look (answer : Store → α) : Members α := Procedure.query .read answer

def generateId : Members Id := Procedure.query .generateId fun s => "id-" ++ toString s.generated

def commit (op : Operation) (batch : StoreBatch α) : Members α :=
  Procedure.step op fun s => Procedure.ofExcept (batch.outcome s)

def getOrganization (id : Id) : Members Organization := do
  let organization ← look (·.findOrganization id)
  orThrow organization (notFound "Organization was not found.")

def requireMember (id : Id) : Members MemberRow := do
  let member ← look (·.findMember id)
  orThrow member (notFound "Organization member was not found.")

def requireMemberForOrganization (id organizationId : Id) : Members MemberRow := do
  let member ← requireMember id
  require (member.organizationId = organizationId) (notFound "Organization member was not found.")
  return member

def findRoleKey (dynamic : List RoleKey) (role : String) : Option RoleKey :=
  (predefinedOrganizationRoleKeys ++ dynamic).find? fun key => key.text = role

def validateOrganizationRoleKeys (organizationId : Id) (roles : List String) :
    Members (List RoleKey) := do
  let dynamic ← look (·.listOrganizationRoles organizationId)
  collect roles fun role => orThrow (findRoleKey dynamic role)
    (badRequest ("Organization Role \"" ++ role ++ "\" was not found."))

def authorizationAudit (action : String) (organizationId controllerUserId : Id)
    (memberId : Option Id) (previousRoles roles : List String) (occurredAt : ℕ) :
    Members Audit := do
  let id ← generateId
  return ⟨id, action, organizationId, controllerUserId, memberId, previousRoles, roles, occurredAt⟩

def createOrganization (slug : String) (ownerUserId : Id) : Members Unit := do
  let id ← generateId
  let ownerId ← generateId
  let now ← look (·.now)
  let roles := predefinedOrganizationRoleKeys.take 1
  commit (.createOrganization ⟨id, slug, false⟩ ownerId ownerUserId roles now)
    (Repository.createOrganization ⟨id, slug, false⟩ ownerId ownerUserId roles now)

def createRole (organizationId : Id) (key : RoleKey) (actorUserId : Id) : Members Unit := do
  let _ ← getOrganization organizationId
  require (key ∉ predefinedOrganizationRoleKeys)
    (conflict ("Role key \"" ++ key.text ++ "\" is reserved for a predefined Role."))
  let now ← look (·.now)
  let audit ← authorizationAudit "organization.role.created" organizationId actorUserId none []
    [key.text] now
  commit (.createOrganizationRole organizationId key audit)
    (Repository.createOrganizationRole organizationId key audit)

def addMember (organizationId userId : Id) (roles : List String) (title : Option String) :
    Members Unit := do
  let _ ← getOrganization organizationId
  let keys ← validateOrganizationRoleKeys organizationId roles
  let id ← generateId
  let now ← look (·.now)
  commit (.addMember id organizationId userId keys title now)
    (Repository.addMember id organizationId userId keys title now)

def updateMember (organizationId memberId : Id) (title : Option (Option String)) :
    Members Unit := do
  let _ ← requireMemberForOrganization memberId organizationId
  let now ← look (·.now)
  commit (.updateMember memberId title now) (Repository.updateMember memberId title now)
  let _ ← requireMember memberId

def removeMember (organizationId memberId actorUserId : Id) : Members Unit := do
  let member ← requireMemberForOrganization memberId organizationId
  let now ← look (·.now)
  let audit ← authorizationAudit "organization.member.removed" organizationId actorUserId
    (some memberId) [] [] now
  let now ← look (·.now)
  let removed ← commit (.removeMember organizationId memberId member.updatedAt audit now)
    (Repository.removeMember organizationId memberId member.updatedAt audit now)
  require (removed = true)
    (preconditionFailed "The Organization member changed or is the last Owner.")

def rejectLastOwnerMutation (member : MemberRow) : Members Unit := do
  if "owner" ∉ member.roles then return ()
  let ownerCount ← look (·.countMembersByRole member.organizationId "owner")
  require (1 < ownerCount)
    (badRequest "Transfer Organization ownership before changing or removing the last Owner.")

def replaceMemberRoles (organizationId memberId : Id) (roles : List String) (actorUserId : Id) :
    Members Unit := do
  let target ← requireMemberForOrganization memberId organizationId
  let keys ← validateOrganizationRoleKeys organizationId roles
  if "owner" ∈ target.roles ∧ "owner" ∉ roles then rejectLastOwnerMutation target
  let now ← look (·.now)
  let audit ← authorizationAudit "organization.member.roles-replaced" organizationId actorUserId
    (some memberId) target.roles roles now
  let updated ← commit (.replaceMemberRoles organizationId memberId keys target.updatedAt audit)
    (Repository.replaceMemberRoles organizationId memberId keys target.updatedAt audit)
  require (updated = true)
    (preconditionFailed "The Organization member changed after it was read.")

end Usecases

inductive Call where
  | createOrganization (slug : String) (ownerUserId : Id)
  | createRole (organizationId : Id) (key : RoleKey) (actorUserId : Id)
  | addMember (organizationId userId : Id) (roles : List String) (title : Option String)
  | updateMember (organizationId memberId : Id) (title : Option (Option String))
  | replaceMemberRoles (organizationId memberId : Id) (roles : List String) (actorUserId : Id)
  | removeMember (organizationId memberId actorUserId : Id)
  | elapse (milliseconds : ℕ)
  | setClock (now : ℕ)

def Call.program : Call → Members Unit
  | .createOrganization slug ownerUserId => Membership.createOrganization slug ownerUserId
  | .createRole organizationId key actorUserId =>
    Membership.createRole organizationId key actorUserId
  | .addMember organizationId userId roles title =>
    Membership.addMember organizationId userId roles title
  | .updateMember organizationId memberId title =>
    Membership.updateMember organizationId memberId title
  | .replaceMemberRoles organizationId memberId roles actorUserId =>
    Membership.replaceMemberRoles organizationId memberId roles actorUserId
  | .removeMember organizationId memberId actorUserId =>
    Membership.removeMember organizationId memberId actorUserId
  | .elapse milliseconds => Procedure.query (.elapse milliseconds) fun _ => ()
  | .setClock now => Procedure.query (.setClock now) fun _ => ()

structure Store.Fresh (s : Store) : Prop where
  organizations : s.organizations = []
  organizationRoles : s.organizationRoles = []
  members : s.members = []

abbrev MembershipPool := Pool Call Store Operation Failure Unit

abbrev MembershipReachable : MembershipPool → Prop :=
  Reachable Call.program Store.Fresh (Unrestricted Call Store Operation Failure Unit)

end FlareAuth.Membership
