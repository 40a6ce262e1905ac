import FlareAuth.OrganizationMembers
import FlareAuth.ResourceScopes

/-!
# Roles of Organizations and their assignments

Whether the roles of an assignment exist is read before the assignment is
written. Whether a role is assigned is a condition of the statement that deletes
it, which looks for its key in the role texts of members and pending invitations.
-/

namespace FlareAuth.Roles

open Concurrent Procedure Relational
open FlareAuth.Membership (RoleKey MemberRow serializeRoles predefinedOrganizationRoleKeys)

structure RoleRow where
  id : Id
  organizationId : Id
  key : RoleKey
  permission : List RoleScope
  displayName : String
  description : Option String
  createdAt : ℕ
  updatedAt : ℕ

inductive InvitationStatus where
  | pending
  | accepted
  | canceled
  deriving DecidableEq

structure InvitationRow where
  id : Id
  organizationId : Id
  email : String
  role : String
  inviterId : Id
  status : InvitationStatus
  expiresAt : ℕ
  revokedAt : Option ℕ
  createdAt : ℕ

/-- `toInvitation`: the roles which an invitation gives. -/
def InvitationRow.roles (i : InvitationRow) : List String := Membership.deserializeRoles i.role

structure Audit where
  id : Id
  action : String
  ownerOrganizationId : Id
  controllerUserId : Id
  roleKey : Option String
  memberId : Option Id
  previousRoles : List String
  roles : List String
  occurredAt : ℕ

structure Store where
  now : ℕ
  generated : ℕ
  realmroot : Option Id
  users : List Id
  organizations : List Organization
  roles : List RoleRow
  members : List MemberRow
  invitations : List InvitationRow
  audits : List Audit

/-- The SQL test for a role key in a role text. -/
def holdsKey (role key : String) : Bool :=
  Text.like (Text.namePattern key.toList) (',' :: (role.toList ++ [',']))

namespace Store

/-- The tables that the statements about members read. -/
def membership (s : Store) : Membership.Store where
  now := s.now
  generated := s.generated
  users := s.users
  organizations := s.organizations
  organizationRoles := s.roles.map fun r => (r.organizationId, r.key)
  members := s.members
  teams := []
  teamMembers := []
  sessions := []
  refreshTokens := []
  applications := []
  audits := []

def findOrganizationRole (s : Store) (organizationId : Id) (roleKey : String) : Option RoleRow :=
  s.roles.find? fun r => r.organizationId = organizationId ∧ r.key.text = roleKey

def findInvitation (s : Store) (id : Id) : Option InvitationRow :=
  s.invitations.find? fun i => i.id = id

def assignedMember (s : Store) (organizationId : Id) (roleKey : String) : Bool :=
  s.members.any fun m => m.organizationId == organizationId && holdsKey m.role roleKey

def assignedInvitation (s : Store) (organizationId : Id) (roleKey : String) : Bool :=
  s.invitations.any fun i => i.organizationId == organizationId && i.status == .pending &&
    holdsKey i.role roleKey

/-- The condition under which the role of a key that was read at a time is the same row still. -/
def unchangedRole (organizationId : Id) (roleKey : String) (expectedUpdatedAt : ℕ)
    (r : RoleRow) : Bool :=
  r.organizationId == organizationId && r.key.text == roleKey && r.updatedAt == expectedUpdatedAt

def deletionCondition (s : Store) (organizationId : Id) (roleKey : String)
    (expectedUpdatedAt : ℕ) (r : RoleRow) : Bool :=
  unchangedRole organizationId roleKey expectedUpdatedAt r &&
    !s.assignedMember organizationId roleKey && !s.assignedInvitation organizationId roleKey

end Store

structure RolePatch where
  displayName : Option String
  description : Option (Option String)
  permission : Option (List RoleScope)

abbrev StoreBatch := Batch Store Failure

namespace Repository

def createOrganizationRole (r : RoleRow) (audit : Audit) : StoreBatch Unit := fun s =>
  if s.roles.any fun other => other.organizationId == r.organizationId && other.key == r.key then
    .error (conflict ("Role key \"" ++ r.key.text ++ "\" is already in use."))
  else if (s.membership.findOrganization r.organizationId).isNone ||
      s.roles.any fun other => other.id == r.id then
    .error (.error "constraint failed")
  else .ok ((), { s with roles := s.roles ++ [r], audits := s.audits ++ [audit] })

def updateOrganizationRole (organizationId : Id) (roleKey : String) (patch : RolePatch)
    (expectedUpdatedAt : ℕ) (audit : Audit) : StoreBatch Bool := do
  let found ← Batch.read fun s =>
    s.roles.filter (Store.unchangedRole organizationId roleKey expectedUpdatedAt)
  Batch.modify fun s => { s with audits := s.audits ++ found.map fun _ => audit }
  Batch.modify fun s => { s with
    roles := updateWhere (Store.unchangedRole organizationId roleKey expectedUpdatedAt)
      (fun r => { r with
        displayName := patch.displayName.getD r.displayName
        description := patch.description.getD r.description
        permission := patch.permission.getD r.permission
        updatedAt := audit.occurredAt }) s.roles }
  return !found.isEmpty

def deleteOrganizationRole (organizationId : Id) (roleKey : String) (expectedUpdatedAt : ℕ)
    (audit : Audit) : StoreBatch Bool := do
  let found ← Batch.read fun s =>
    s.roles.filter (s.deletionCondition organizationId roleKey expectedUpdatedAt)
  Batch.modify fun s => { s with audits := s.audits ++ found.map fun _ => audit }
  Batch.modify fun s => { s with
    roles := s.roles.filter fun r =>
      !s.deletionCondition organizationId roleKey expectedUpdatedAt r }
  return !found.isEmpty

def addMember (id organizationId userId : Id) (roles : List RoleKey) (title : Option String)
    (now : ℕ) : StoreBatch Unit := fun s =>
  let m : MemberRow :=
    ⟨id, organizationId, userId, serializeRoles (roles.map (·.text)), title, now, now⟩
  if s.membership.memberInsertable m then .ok ((), { s with members := s.members ++ [m] })
  else .error (.error "constraint failed")

def replaceMemberRoles (organizationId memberId : Id) (roles : List RoleKey)
    (expectedUpdatedAt : ℕ) (audit : Audit) : StoreBatch Bool := do
  let found ← Batch.read fun s => s.members.filter
    (Membership.Repository.rolesCondition s.membership organizationId memberId roles
      expectedUpdatedAt)
  Batch.modify fun s => { s with audits := s.audits ++ found.map fun _ => audit }
  Batch.modify fun s => { s with
    members := updateWhere
      (Membership.Repository.rolesCondition s.membership organizationId memberId roles
        expectedUpdatedAt)
      (fun m => { m with
        role := serializeRoles (roles.map (·.text))
        updatedAt := audit.occurredAt }) s.members }
  return !found.isEmpty

def createInvitation (id organizationId : Id) (email : String) (roles : List RoleKey)
    (inviterId : Id) (expiresAt now : ℕ) : StoreBatch Unit := fun s =>
  if (s.findInvitation id).isNone && (s.membership.findOrganization organizationId).isSome &&
      s.users.contains inviterId then
    .ok ((), { s with
      invitations := s.invitations ++ [⟨id, organizationId, email,
        serializeRoles (roles.map (·.text)), inviterId, .pending, expiresAt, none, now⟩] })
  else .error (.error "constraint failed")

def cancelInvitation (id : Id) (now : ℕ) : StoreBatch Unit :=
  Batch.modify fun s => { s with
    invitations := updateWhere (fun i => i.id == id)
      (fun i => { i with status := .canceled, revokedAt := some now }) s.invitations }

end Repository

inductive Operation where
  | read
  | generateId
  | elapse (milliseconds : ℕ)
  | setClock (now : ℕ)
  | createOrganizationRole (r : RoleRow) (audit : Audit)
  | updateOrganizationRole (organizationId : Id) (roleKey : String) (patch : RolePatch)
      (expectedUpdatedAt : ℕ) (audit : Audit)
  | deleteOrganizationRole (organizationId : Id) (roleKey : String) (expectedUpdatedAt : ℕ)
      (audit : Audit)
  | addMember (id organizationId userId : Id) (roles : List RoleKey) (title : Option String)
      (now : ℕ)
  | replaceMemberRoles (organizationId memberId : Id) (roles : List RoleKey)
      (expectedUpdatedAt : ℕ) (audit : Audit)
  | createInvitation (id organizationId : Id) (email : String) (roles : List RoleKey)
      (inviterId : Id) (expiresAt now : ℕ)
  | cancelInvitation (id : Id) (now : ℕ)

def Operation.perform : Operation → Store → Store
  | .read, s => s
  | .generateId, s => { s with generated := s.generated + 1 }
  | .elapse milliseconds, s => { s with now := s.now + milliseconds }
  | .setClock now, s => { s with now := now }
  | .createOrganizationRole r audit, s => (Repository.createOrganizationRole r audit).settle s
  | .updateOrganizationRole organizationId roleKey patch expectedUpdatedAt audit, s =>
    (Repository.updateOrganizationRole organizationId roleKey patch expectedUpdatedAt audit
      ).settle s
  | .deleteOrganizationRole organizationId roleKey expectedUpdatedAt audit, s =>
    (Repository.deleteOrganizationRole organizationId roleKey expectedUpdatedAt audit).settle s
  | .addMember id organizationId userId roles title now, s =>
    (Repository.addMember id organizationId userId roles title now).settle s
  | .replaceMemberRoles organizationId memberId roles expectedUpdatedAt audit, s =>
    (Repository.replaceMemberRoles organizationId memberId roles expectedUpdatedAt audit).settle s
  | .createInvitation id organizationId email roles inviterId expiresAt now, s =>
    (Repository.createInvitation id organizationId email roles inviterId expiresAt now).settle s
  | .cancelInvitation id now, s => (Repository.cancelInvitation id now).settle s

instance : Operational Operation Store := ⟨Operation.perform⟩

abbrev RoleAdministration := Procedure Store Operation Failure

section Usecases

variable {α : Type}

def look (answer : Store → α) : RoleAdministration α := Procedure.query .read answer

def generateId : RoleAdministration Id :=
  Procedure.query .generateId fun s => "id-" ++ toString s.generated

def commit (op : Operation) (batch : StoreBatch α) : RoleAdministration α :=
  Procedure.step op fun s => Procedure.ofExcept (batch.outcome s)

def getOrganization (id : Id) : RoleAdministration Organization := do
  let organization ← look (·.membership.findOrganization id)
  orThrow organization (notFound "Organization was not found.")

def requireMemberForOrganization (id organizationId : Id) : RoleAdministration MemberRow := do
  let found ← look (·.membership.findMember id)
  let member ← orThrow found (notFound "Organization member was not found.")
  require (member.organizationId = organizationId) (notFound "Organization member was not found.")
  return member

def validateOrganizationRoleKeys (organizationId : Id) (roles : List String) :
    RoleAdministration (List RoleKey) := do
  let dynamic ← look (·.membership.listOrganizationRoles organizationId)
  collect roles fun role => orThrow (Membership.findRoleKey dynamic role)
    (badRequest ("Organization Role \"" ++ role ++ "\" was not found."))

def roleAudit (action : String) (organizationId controllerUserId : Id) (roleKey : String)
    (occurredAt : ℕ) : RoleAdministration Audit := do
  let id ← generateId
  return ⟨id, action, organizationId, controllerUserId, some roleKey, none, [], [], occurredAt⟩

structure RoleResponse where
  key : RoleKey
  displayName : String
  description : Option String
  predefined : Bool
  scopes : List RoleScope
  createdAt : Option ℕ
  updatedAt : Option ℕ

def predefinedRoleRepresentation (resourceId : Id) (key : RoleKey) : Except Failure RoleResponse :=
  (predefinedOrganizationRoleScopes key.text).map fun scopes =>
    ⟨key, key.text.capitalize, none, true, scopes.map fun scope => ⟨resourceId, scope⟩, none, none⟩

def predefinedRoleRepresentations : RoleAdministration (List RoleResponse) := do
  let resource ← look (·.realmroot)
  let resourceId ← orThrow resource (.error "The Realmroot Resource Server is unavailable.")
  Procedure.ofExcept (predefinedOrganizationRoleKeys.mapM (predefinedRoleRepresentation resourceId))

def getStoredRole (organizationId : Id) (roleKey : String) : RoleAdministration RoleResponse := do
  let found ← look (·.findOrganizationRole organizationId roleKey)
  let role ← orThrow found (notFound "Organization Role was not found.")
  let scopes ← look fun s => (s.findOrganizationRole organizationId roleKey).map (·.permission)
  return ⟨role.key, role.displayName, role.description, false, scopes.getD [], some role.createdAt,
    some role.updatedAt⟩

def getRole (organizationId : Id) (roleKey : String) : RoleAdministration RoleResponse := do
  let predefined ← predefinedRoleRepresentations
  match predefined.find? fun role => role.key.text = roleKey with
  | some role => return role
  | none => getStoredRole organizationId roleKey

structure CreateRoleRequest where
  key : RoleKey
  displayName : String
  description : Option String
  scopes : List RoleScope

/-- The scopes are taken normalized and `checks` is what their validation came to. -/
def createRole (organizationId : Id) (input : CreateRoleRequest) (checks : Except Failure Unit)
    (actorUserId : Id) : RoleAdministration Unit := do
  let _ ← getOrganization organizationId
  require (input.key ∉ predefinedOrganizationRoleKeys)
    (conflict ("Role key \"" ++ input.key.text ++ "\" is reserved for a predefined Role."))
  Procedure.ofExcept checks
  let now ← look (·.now)
  let audit ← roleAudit "organization.role.created" organizationId actorUserId input.key.text now
  let id ← generateId
  let role : RoleRow :=
    ⟨id, organizationId, input.key, input.scopes, input.displayName, input.description, now, now⟩
  commit (.createOrganizationRole role audit) (Repository.createOrganizationRole role audit)

def updateRole (organizationId : Id) (roleKey : String) (patch : RolePatch)
    (checks : Except Failure Unit) (actorUserId : Id) : RoleAdministration Unit := do
  let role ← getRole organizationId roleKey
  require (role.predefined = false) (conflict "Predefined Organization Roles cannot be modified.")
  Procedure.ofExcept checks
  let now ← look (·.now)
  let audit ← roleAudit "organization.role.updated" organizationId actorUserId roleKey now
  let expected := role.updatedAt.getD 0
  let updated ← commit (.updateOrganizationRole organizationId roleKey patch expected audit)
    (Repository.updateOrganizationRole organizationId roleKey patch expected audit)
  require (updated = true)
    (preconditionFailed "The Organization Role changed after it was read.")
  let _ ← getRole organizationId roleKey

/-- Why nothing was deleted: a role that is there and assigned, or else one that changed. -/
def explainDeletion (organizationId : Id) (roleKey : String) : RoleAdministration Unit := do
  let existing ← look (·.findOrganizationRole organizationId roleKey)
  require (existing.isSome = true)
    (preconditionFailed "The Organization Role changed after it was read.")
  let assignment ← look (·.assignedMember organizationId roleKey)
  require (assignment = false) (conflict "Assigned Organization Roles cannot be deleted.")
  let pendingInvitation ← look (·.assignedInvitation organizationId roleKey)
  require (pendingInvitation = false) (conflict "Assigned Organization Roles cannot be deleted.")
  Procedure.fail (preconditionFailed "The Organization Role changed after it was read.")

def deleteRole (organizationId : Id) (roleKey : String) (actorUserId : Id) :
    RoleAdministration Unit := do
  let role ← getRole organizationId roleKey
  require (role.predefined = false) (conflict "Predefined Organization Roles cannot be deleted.")
  let now ← look (·.now)
  let audit ← roleAudit "organization.role.deleted" organizationId actorUserId roleKey now
  let expected := role.updatedAt.getD 0
  let deleted ← commit (.deleteOrganizationRole organizationId roleKey expected audit)
    (Repository.deleteOrganizationRole organizationId roleKey expected audit)
  if deleted then return () else explainDeletion organizationId roleKey

def addMember (organizationId userId : Id) (roles : List String) (title : Option String) :
    RoleAdministration Unit := do
  let _ ← getOrganization organizationId
  let keys ← validateOrganizationRoleKeys organizationId roles
  let id ← generateId
  let now ← look (·.now)
  commit (.addMember id organizationId userId keys title now)
    (Repository.addMember id organizationId userId keys title now)

def rejectLastOwnerMutation (member : MemberRow) : RoleAdministration Unit := do
  let ownerCount ← look (·.membership.countMembersByRole member.organizationId "owner")
  require (1 < ownerCount)
    (badRequest "Transfer Organization ownership before changing or removing the last Owner.")

def replaceMemberRoles (organizationId memberId : Id) (roles : List String) (actorUserId : Id) :
    RoleAdministration Unit := do
  let target ← requireMemberForOrganization memberId organizationId
  let keys ← validateOrganizationRoleKeys organizationId roles
  if "owner" ∈ target.roles ∧ "owner" ∉ roles then rejectLastOwnerMutation target
  let now ← look (·.now)
  let id ← generateId
  let audit : Audit := ⟨id, "organization.member.roles-replaced", organizationId, actorUserId, none,
    some memberId, target.roles, roles, now⟩
  let updated ← commit (.replaceMemberRoles organizationId memberId keys target.updatedAt audit)
    (Repository.replaceMemberRoles organizationId memberId keys target.updatedAt audit)
  require (updated = true)
    (preconditionFailed "The Organization member changed after it was read.")

def createInvitation (organizationId : Id) (email : String) (roles : List String)
    (expiresAt : Option ℕ) (actorUserId : Id) : RoleAdministration Unit := do
  let _ ← getOrganization organizationId
  let keys ← validateOrganizationRoleKeys organizationId roles
  let id ← generateId
  let now ← look (·.now)
  let expiresAt := expiresAt.getD (now + 1000 * 60 * 60 * 48)
  commit (.createInvitation id organizationId email keys actorUserId expiresAt now)
    (Repository.createInvitation id organizationId email keys actorUserId expiresAt now)

def cancelInvitation (organizationId id : Id) : RoleAdministration Unit := do
  let found ← look (·.findInvitation id)
  let invitation ← orThrow found (notFound "Organization invitation was not found.")
  require (invitation.organizationId = organizationId)
    (notFound "Organization invitation was not found.")
  let now ← look (·.now)
  commit (.cancelInvitation id now) (Repository.cancelInvitation id now)

end Usecases

inductive Call where
  | createRole (organizationId : Id) (input : CreateRoleRequest) (checks : Except Failure Unit)
      (actorUserId : Id)
  | updateRole (organizationId : Id) (roleKey : String) (patch : RolePatch)
      (checks : Except Failure Unit) (actorUserId : Id)
  | deleteRole (organizationId : Id) (roleKey : String) (actorUserId : Id)
  | addMember (organizationId userId : Id) (roles : List String) (title : Option String)
  | replaceMemberRoles (organizationId memberId : Id) (roles : List String) (actorUserId : Id)
  | createInvitation (organizationId : Id) (email : String) (roles : List String)
      (expiresAt : Option ℕ) (actorUserId : Id)
  | cancelInvitation (organizationId id : Id)
  | elapse (milliseconds : ℕ)
  | setClock (now : ℕ)

def Call.program : Call → RoleAdministration Unit
  | .createRole organizationId input checks actorUserId =>
    Roles.createRole organizationId input checks actorUserId
  | .updateRole organizationId roleKey patch checks actorUserId =>
    Roles.updateRole organizationId roleKey patch checks actorUserId
  | .deleteRole organizationId roleKey actorUserId =>
    Roles.deleteRole organizationId roleKey actorUserId
  | .addMember organizationId userId roles title =>
    Roles.addMember organizationId userId roles title
  | .replaceMemberRoles organizationId memberId roles actorUserId =>
    Roles.replaceMemberRoles organizationId memberId roles actorUserId
  | .createInvitation organizationId email roles expiresAt actorUserId =>
    Roles.createInvitation organizationId email roles expiresAt actorUserId
  | .cancelInvitation organizationId id => Roles.cancelInvitation organizationId id
  | .elapse milliseconds => Procedure.query (.elapse milliseconds) fun _ => ()
  | .setClock now => Procedure.query (.setClock now) fun _ => ()

abbrev RolePool := Pool Call Store Operation Failure Unit

end FlareAuth.Roles
