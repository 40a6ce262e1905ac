import FlareAuth.RoleAssignments
import FlareAuth.VersionedMembers

/-!
# Versions of roles

As with members, the time of its last change is the version of a role, and an
update or a deletion asks for the version that was read. A role that is created
again under a key may bear the time of the deleted one.
-/

namespace FlareAuth.Roles

open Concurrent Procedure Relational
open FlareAuth.Membership (RoleKey MemberRow predefinedOrganizationRoleKeys)

/-- The role that a statement changes, and the version that it asks for. -/
def Operation.expects : Operation → Option ((Id × String) × ℕ)
  | .updateOrganizationRole organizationId roleKey _ expectedUpdatedAt _ =>
    some ((organizationId, roleKey), expectedUpdatedAt)
  | .deleteOrganizationRole organizationId roleKey expectedUpdatedAt _ =>
    some ((organizationId, roleKey), expectedUpdatedAt)
  | _ => none

/-- A statement on a version reports that it changed the role. -/
def Operation.Succeeds : Operation → Store → Prop
  | .updateOrganizationRole organizationId roleKey patch expectedUpdatedAt audit, s =>
    (Repository.updateOrganizationRole organizationId roleKey patch expectedUpdatedAt
      audit).outcome s = .ok true
  | .deleteOrganizationRole organizationId roleKey expectedUpdatedAt audit, s =>
    (Repository.deleteOrganizationRole organizationId roleKey expectedUpdatedAt audit).outcome s =
      .ok true
  | _, _ => False

/-- The role whose row an operation writes if it takes effect, and the version that it writes. -/
def Operation.stamps (s : Store) : Operation → Option ((Id × String) × ℕ)
  | .createOrganizationRole r _ =>
    if (s.findOrganizationRole r.organizationId r.key.text).isNone then
      some ((r.organizationId, r.key.text), r.updatedAt)
    else none
  | .updateOrganizationRole organizationId roleKey _ expectedUpdatedAt audit =>
    if s.roles.any (Store.unchangedRole organizationId roleKey expectedUpdatedAt) then
      some ((organizationId, roleKey), audit.occurredAt)
    else none
  | _ => none

/-- A row of a role is written at a time that no earlier row of the role bears. -/
def StampsNew (pool : RolePool) (m : Move Call) : Prop :=
  ∀ i t op, m = .resume i → pool.pending i = some (t, op) →
    ∀ key now, op.stamps pool.store = some (key, now) →
    ∀ s ∈ pool.history, ∀ r, s.findOrganizationRole key.1 key.2 = some r → r.updatedAt ≠ now

abbrev RolesGuarded : RolePool → Prop :=
  Guarded (fun key s => s.findOrganizationRole key.1 key.2) RoleRow.updatedAt Operation.expects
    Operation.Succeeds

def RoleRow.index (r : RoleRow) : Id × String := (r.organizationId, r.key.text)

section Steps

variable {s : Store} {op : Operation} {r : RoleRow} {key : Id × String}

def Store.UniqueRoles (s : Store) : Prop := (s.roles.map RoleRow.index).Nodup

theorem findOrganizationRole_eq_lookup :
    s.findOrganizationRole key.1 key.2 = lookup RoleRow.index key s.roles := by
  rw [Store.findOrganizationRole, lookup]
  congr 1
  funext r
  simp [RoleRow.index, Prod.ext_iff]

theorem findOrganizationRole_of_mem (hunique : s.UniqueRoles) (h : r ∈ s.roles) :
    s.findOrganizationRole r.index.1 r.index.2 = some r := by
  rw [findOrganizationRole_eq_lookup]
  exact lookup_of_mem hunique h

theorem index_of_unchangedRole {organizationId : Id} {roleKey : String} {expectedUpdatedAt : ℕ}
    (h : Store.unchangedRole organizationId roleKey expectedUpdatedAt r = true) :
    r.index = (organizationId, roleKey) ∧ r.updatedAt = expectedUpdatedAt := by
  unfold Store.unchangedRole at h
  simp only [Bool.and_eq_true, beq_iff_eq] at h
  exact ⟨Prod.ext h.1.1 h.1.2, h.2⟩

abbrev StampedRoles (op : Operation) (s t : Store) : Prop :=
  Stamped RoleRow.index RoleRow.updatedAt (op.stamps s) s.roles t.roles

theorem stampedRoles_create (r : RoleRow) (audit : Audit) (s : Store) :
    StampedRoles (.createOrganizationRole r audit) s
      ((Repository.createOrganizationRole r audit).settle s) := by
  unfold StampedRoles
  rcases hs : Repository.createOrganizationRole r audit s with e | ⟨u, t⟩
  · rw [Batch.settle_of_error hs]
    exact .same
  · obtain ⟨hnew, rfl⟩ := createOrganizationRole_eq_ok hs
    rw [Batch.settle_of_ok hs]
    refine .insert (fun other hother heq => ?_) (if_pos ?_)
    · obtain ⟨horganization, hkey⟩ := Prod.ext_iff.mp heq
      exact hnew other hother ⟨horganization, key_ext hkey⟩
    · rw [Option.isNone_iff_eq_none, Store.findOrganizationRole, List.find?_eq_none]
      intro other hother hfound
      obtain ⟨horganization, hkey⟩ := of_decide_eq_true hfound
      exact hnew other hother ⟨horganization, key_ext hkey⟩

/-- A statement on other tables leaves the roles. -/
theorem stampedRoles_settle {α : Type} {batch : StoreBatch α}
    (h : ∀ a t, batch s = .ok (a, t) → t.roles = s.roles) : StampedRoles op s (batch.settle s) := by
  unfold StampedRoles
  rcases hs : batch s with e | ⟨a, t⟩
  · rw [Batch.settle_of_error hs]
    exact .same
  · rw [Batch.settle_of_ok hs, h a t hs]
    exact .same

theorem stampedRoles_apply (op : Operation) (s : Store) : StampedRoles op s (apply op s) := by
  cases op with
  | read | generateId | elapse | setClock | replaceMemberRoles | cancelInvitation => exact .same
  | createOrganizationRole r audit => exact stampedRoles_create r audit s
  | updateOrganizationRole organizationId roleKey patch expectedUpdatedAt audit =>
    refine .update (fun _ => rfl) fun r hr hp => ?_
    have hany := List.any_eq_true.mpr ⟨r, hr, hp⟩
    rw [(index_of_unchangedRole hp).1]
    exact if_pos hany
  | deleteOrganizationRole organizationId roleKey expectedUpdatedAt audit => exact .delete _
  | addMember id organizationId userId roles title now =>
    refine stampedRoles_settle fun _ t ht => ?_
    unfold Repository.addMember at ht
    dsimp only at ht
    split at ht
    · cases ht
      rfl
    · cases ht
  | createInvitation id organizationId email roles inviterId expiresAt now =>
    refine stampedRoles_settle fun _ t ht => ?_
    unfold Repository.createInvitation at ht
    split at ht
    · cases ht
      rfl
    · cases ht

/-- A statement on a version that succeeds replaces the row of that version. -/
theorem replaces_of_succeeds (hunique : s.UniqueRoles) {v : ℕ}
    (hexpects : op.expects = some (key, v)) (hnew : ∀ now, op.stamps s = some (key, now) →
      ∀ r, s.findOrganizationRole key.1 key.2 = some r → r.updatedAt ≠ now)
    (hsucceeds : op.Succeeds s) :
    Replaces (fun s => Store.findOrganizationRole s key.1 key.2) RoleRow.updatedAt v ⟨op, s⟩ := by
  have hreplaces : ∀ {r}, r ∈ s.roles → Store.unchangedRole key.1 key.2 v r = true →
      lookup RoleRow.index key (apply op s).roles ≠ some r →
      Replaces (fun s => Store.findOrganizationRole s key.1 key.2) RoleRow.updatedAt v ⟨op, s⟩ := by
    intro r hr hp hgone
    obtain ⟨hindex, hversion⟩ := index_of_unchangedRole hp
    refine ⟨r, ?_, hversion, ?_⟩
    · have hfound := findOrganizationRole_of_mem hunique hr
      rwa [hindex] at hfound
    · change (apply op s).findOrganizationRole key.1 key.2 ≠ some r
      rwa [findOrganizationRole_eq_lookup]
  cases op with
  | updateOrganizationRole organizationId roleKey patch expectedUpdatedAt audit =>
    cases hexpects
    obtain ⟨r, hr, hp⟩ := selected_iff.mp hsucceeds
    have hwritten := hnew audit.occurredAt (if_pos (List.any_eq_true.mpr ⟨r, hr, hp⟩))
    have hfound := findOrganizationRole_of_mem hunique hr
    rw [(index_of_unchangedRole hp).1] at hfound
    exact hreplaces hr hp (lookup_updateWhere_ne RoleRow.updatedAt hp (fun _ => rfl)
      (hwritten r hfound))
  | deleteOrganizationRole organizationId roleKey expectedUpdatedAt audit =>
    cases hexpects
    obtain ⟨r, hr, hp⟩ := selected_iff.mp hsucceeds
    have hselected := hp
    simp only [Store.deletionCondition, Bool.and_eq_true] at hp
    exact hreplaces hr hp.1.1 (lookup_filter_ne hselected)
  | _ => cases hexpects

/-- A statement on a version that does not succeed changes nothing. -/
theorem unchanged_of_not_succeeds {v : ℕ} (hexpects : op.expects = some (key, v))
    (hrefused : ¬op.Succeeds s) : apply op s = s := by
  cases op with
  | updateOrganizationRole organizationId roleKey patch expectedUpdatedAt audit =>
    have hno := mt selected_iff.mpr hrefused
    change { s with
      audits := s.audits ++ (s.roles.filter (Store.unchangedRole organizationId roleKey
        expectedUpdatedAt)).map fun _ => audit
      roles := updateWhere (Store.unchangedRole organizationId roleKey expectedUpdatedAt) _
        s.roles } = s
    rw [filter_of_unselected hno, updateWhere_of_unselected hno, List.map_nil, List.append_nil]
  | deleteOrganizationRole organizationId roleKey expectedUpdatedAt audit =>
    have hno := mt selected_iff.mpr hrefused
    change { s with
      audits := s.audits ++ (s.roles.filter (s.deletionCondition organizationId roleKey
        expectedUpdatedAt)).map fun _ => audit
      roles := s.roles.filter fun r =>
        !s.deletionCondition organizationId roleKey expectedUpdatedAt r } = s
    rw [filter_of_unselected hno, delete_of_unselected hno, List.map_nil, List.append_nil]
  | _ => cases hexpects

end Steps

section Contract

variable {α β : Type}

/-- A statement on a version comes after a read that found the role in this version. -/
def Informed (log : Log Store Operation) (_ : Store) (op : Operation) : Prop :=
  ∀ key v, op.expects = some (key, v) →
    ∃ d ∈ log, ∃ r, d.before.findOrganizationRole key.1 key.2 = some r ∧ r.updatedAt = v

def Operation.Unversioned (op : Operation) : Prop := op.expects = none

theorem informed_of_unversioned (log : Log Store Operation) (s : Store) (op : Operation)
    (h : op.Unversioned) : Informed log s op := by
  intro key v hexpects
  rw [h] at hexpects
  cases hexpects

theorem obeys_unversioned {p : RoleAdministration α} {log : Log Store Operation}
    (h : p.Only Operation.Unversioned) : p.Obeys Informed (fun _ _ => True) log :=
  h.obeys informed_of_unversioned (fun _ _ _ _ => trivial) fun _ _ _ => trivial

theorem obeys_unversioned_bind {p : RoleAdministration α} {f : α → RoleAdministration β}
    {log : Log Store Operation} (h : p.Only Operation.Unversioned)
    (hf : ∀ log' a, log ⊆ log' → (f a).Obeys Informed (fun _ _ => True) log') :
    (p >>= f).Obeys Informed (fun _ _ => True) log :=
  h.obeys_bind informed_of_unversioned (fun log' a hgrown _ => hf log' a hgrown.subset)
    fun _ _ _ => trivial

@[simp] theorem unversioned_look (answer : Store → α) :
    (look answer).Only Operation.Unversioned := only_query.mpr rfl

@[simp] theorem unversioned_generateId : generateId.Only Operation.Unversioned :=
  only_query.mpr rfl

@[simp] theorem unversioned_commit {op : Operation} {batch : StoreBatch α} :
    (commit op batch).Only Operation.Unversioned ↔ op.expects = none := by
  simp [commit, Operation.Unversioned]

@[simp] theorem unversioned_getOrganization (id : Id) :
    (getOrganization id).Only Operation.Unversioned := by
  simp [getOrganization]

@[simp] theorem unversioned_requireMemberForOrganization (id organizationId : Id) :
    (requireMemberForOrganization id organizationId).Only Operation.Unversioned := by
  simp [requireMemberForOrganization]

@[simp] theorem unversioned_validateOrganizationRoleKeys (organizationId : Id)
    (roles : List String) :
    (validateOrganizationRoleKeys organizationId roles).Only Operation.Unversioned := by
  simp [validateOrganizationRoleKeys]

@[simp] theorem unversioned_roleAudit (action : String) (organizationId controllerUserId : Id)
    (roleKey : String) (occurredAt : ℕ) :
    (roleAudit action organizationId controllerUserId roleKey occurredAt).Only
      Operation.Unversioned := by
  simp [roleAudit]

@[simp] theorem unversioned_predefinedRoleRepresentations :
    predefinedRoleRepresentations.Only Operation.Unversioned := by
  simp [predefinedRoleRepresentations]

@[simp] theorem unversioned_getRole (organizationId : Id) (roleKey : String) :
    (getRole organizationId roleKey).Only Operation.Unversioned := by
  unfold getRole
  refine only_bind.mpr ⟨by simp, fun predefined _ => ?_⟩
  split
  · exact only_done _
  · simp [getStoredRole]

@[simp] theorem unversioned_rejectLastOwnerMutation (m : MemberRow) :
    (rejectLastOwnerMutation m).Only Operation.Unversioned := by
  simp [rejectLastOwnerMutation]

@[simp] theorem unversioned_explainDeletion (organizationId : Id) (roleKey : String) :
    (explainDeletion organizationId roleKey).Only Operation.Unversioned := by
  simp [explainDeletion]

def Represents (log : Log Store Operation) (organizationId : Id) (roleKey : String)
    (role : RoleResponse) : Prop :=
  role.predefined = false → ∃ d ∈ log, ∃ r,
    d.before.findOrganizationRole organizationId roleKey = some r ∧
      r.updatedAt = role.updatedAt.getD 0

theorem obeys_getStoredRole {organizationId : Id} {roleKey : String} {log : Log Store Operation} :
    (getStoredRole organizationId roleKey).Obeys Informed (fun log r => ∀ role, r = .ok role →
      Represents log organizationId roleKey role) log := by
  intro s
  refine ⟨informed_of_unversioned _ _ _ rfl, ?_⟩
  refine obeys_orThrow_bind (fun r hr => ?_) fun _ _ h => nomatch h
  intro s'
  refine ⟨informed_of_unversioned _ _ _ rfl, ?_⟩
  rintro role hrole _
  obtain rfl := Except.ok.inj hrole
  exact ⟨_, List.mem_cons_of_mem _ List.mem_cons_self, r, hr, rfl⟩

theorem predefined_of_mapM {resourceId : Id} {keys : List RoleKey} {roles : List RoleResponse}
    (h : keys.mapM (predefinedRoleRepresentation resourceId) = .ok roles) :
    ∀ role ∈ roles, role.predefined = true := by
  induction keys generalizing roles with
  | nil =>
    cases h
    simp
  | cons key keys ih =>
    rw [List.mapM_cons] at h
    cases hscopes : predefinedOrganizationRoleScopes key.text with
    | error e => simp [predefinedRoleRepresentation, hscopes, Except.map, bind, Except.bind] at h
    | ok scopes =>
      cases hrest : keys.mapM (predefinedRoleRepresentation resourceId) with
      | error e =>
        simp [predefinedRoleRepresentation, hscopes, hrest, Except.map, bind, Except.bind] at h
      | ok rest =>
        simp only [predefinedRoleRepresentation, hscopes, hrest, Except.map, bind, Except.bind,
          pure, Except.pure, Except.ok.injEq] at h
        subst h
        exact List.forall_mem_cons.mpr ⟨rfl, ih hrest⟩

theorem obeys_predefinedRoleRepresentations {log : Log Store Operation} :
    predefinedRoleRepresentations.Obeys Informed (fun _ r => ∀ roles, r = .ok roles →
      ∀ role ∈ roles, role.predefined = true) log := by
  intro s
  refine ⟨informed_of_unversioned _ _ _ rfl, ?_⟩
  refine obeys_orThrow_bind (fun resourceId _ => ?_) fun _ _ h => nomatch h
  cases hroles : predefinedOrganizationRoleKeys.mapM (predefinedRoleRepresentation resourceId) with
  | error e => exact fun _ h => nomatch h
  | ok roles =>
    rintro _ h
    obtain rfl := Except.ok.inj h
    exact predefined_of_mapM hroles

theorem obeys_getRole {organizationId : Id} {roleKey : String} {log : Log Store Operation} :
    (getRole organizationId roleKey).Obeys Informed (fun log r => ∀ role, r = .ok role →
      Represents log organizationId roleKey role) log := by
  refine obeys_predefinedRoleRepresentations.bind (fun log' predefined _ hpredefined => ?_)
    fun _ _ _ _ h => nomatch h
  split
  · rename_i role hfound
    rintro _ h hnot
    obtain rfl := Except.ok.inj h
    rw [hpredefined predefined rfl role (List.mem_of_find?_eq_some hfound)] at hnot
    cases hnot
  · exact obeys_getStoredRole

theorem obeys_getRole_bind {organizationId : Id} {roleKey : String} {log : Log Store Operation}
    {f : RoleResponse → RoleAdministration β} (hf : ∀ log role,
      Represents log organizationId roleKey role → (f role).Obeys Informed (fun _ _ => True) log) :
    (getRole organizationId roleKey >>= f).Obeys Informed (fun _ _ => True) log :=
  obeys_getRole.bind (fun log' role _ hrole => hf log' role (hrole role rfl)) fun _ _ _ => trivial

/-- A statement that asks for the version of a role that was read. -/
theorem obeys_commit_bind {key : Id × String} {v : ℕ} {op : Operation} {batch : StoreBatch α}
    {f : α → RoleAdministration β} {log : Log Store Operation}
    (hread : ∃ d ∈ log, ∃ r, d.before.findOrganizationRole key.1 key.2 = some r ∧ r.updatedAt = v)
    (hexpects : op.expects = some (key, v)) (hf : ∀ a, (f a).Only Operation.Unversioned) :
    (commit op batch >>= f).Obeys Informed (fun _ _ => True) log := by
  intro s
  constructor
  · intro key' v' hexpects'
    rw [hexpects] at hexpects'
    cases hexpects'
    exact hread
  · exact obeys_ofExcept_bind (fun _ _ => trivial) fun a _ => obeys_unversioned (hf a)

theorem program_versions (c : Call) : c.program.Obeys Informed (fun _ _ => True) [] := by
  cases c with
  | createRole organizationId input checks actorUserId =>
    refine obeys_unversioned ?_
    simp [Call.program, createRole, Operation.expects]
  | updateRole organizationId roleKey patch checks actorUserId =>
    refine obeys_getRole_bind fun log role hrole => ?_
    refine obeys_require_bind (fun hstored => ?_) fun _ => trivial
    refine obeys_ofExcept_bind (fun _ _ => trivial) fun _ _ => ?_
    refine obeys_unversioned_bind (unversioned_look _) fun log₁ now h₁ => ?_
    refine obeys_unversioned_bind (unversioned_roleAudit ..) fun log₂ audit h₂ => ?_
    obtain ⟨d, hd, hread⟩ := hrole hstored
    exact obeys_commit_bind ⟨d, h₂ (h₁ hd), hread⟩ rfl fun _ => by simp
  | deleteRole organizationId roleKey actorUserId =>
    refine obeys_getRole_bind fun log role hrole => ?_
    refine obeys_require_bind (fun hstored => ?_) fun _ => trivial
    refine obeys_unversioned_bind (unversioned_look _) fun log₁ now h₁ => ?_
    refine obeys_unversioned_bind (unversioned_roleAudit ..) fun log₂ audit h₂ => ?_
    obtain ⟨d, hd, hread⟩ := hrole hstored
    exact obeys_commit_bind ⟨d, h₂ (h₁ hd), hread⟩ rfl fun _ => by simp
  | addMember organizationId userId roles title =>
    refine obeys_unversioned ?_
    simp [Call.program, addMember, Operation.expects]
  | replaceMemberRoles organizationId memberId roles actorUserId =>
    refine obeys_unversioned ?_
    simp [Call.program, replaceMemberRoles, Operation.expects]
  | createInvitation organizationId email roles expiresAt actorUserId =>
    refine obeys_unversioned ?_
    simp [Call.program, createInvitation, Operation.expects]
  | cancelInvitation organizationId id =>
    refine obeys_unversioned ?_
    simp [Call.program, cancelInvitation, Operation.expects]
  | elapse milliseconds => exact obeys_unversioned (only_query.mpr rfl)
  | setClock now => exact obeys_unversioned (only_query.mpr rfl)

end Contract

/-- Changes of roles in runs whose versions are new are decided on the rows that they replace. -/
theorem roles_guarded {pool : RolePool}
    (h : Reachable Call.program Store.UniqueRoles StampsNew pool) : RolesGuarded pool := by
  have hunique : ∀ pool, Reachable Call.program Store.UniqueRoles StampsNew pool →
      pool.store.UniqueRoles := by
    intro pool hpool
    exact hpool.invariant (I := Store.UniqueRoles) (fun _ hs => hs)
      (fun op s hs => (stampedRoles_apply op s).nodup hs) _ List.mem_cons_self
  refine h.guarded ?_ program_versions ?_
  · intro pool i t op hpool hm hpending key r hafter hbefore
    change (apply op pool.store).findOrganizationRole key.1 key.2 = some r at hafter
    change pool.store.findOrganizationRole key.1 key.2 ≠ some r at hbefore
    rw [findOrganizationRole_eq_lookup] at hafter hbefore
    have hstamp := (stampedRoles_apply op pool.store).of_lookup (hunique pool hpool) hafter hbefore
    exact hm i t op rfl hpending key r.updatedAt hstamp
  · intro pool i t op hpool hm hpending key v hexpects
    refine ⟨fun hsucceeds => ?_, unchanged_of_not_succeeds hexpects⟩
    refine replaces_of_succeeds (hunique pool hpool) hexpects (fun now hstamps r hr => ?_) hsucceeds
    exact hm i t op rfl hpending key now hstamps pool.store List.mem_cons_self r hr

/-- In runs whose changes bear new times, members and roles are changed at most once under a
version, and by decisions on the very row that is replaced. -/
theorem changes_guarded (pool : Membership.MembershipPool) (rolePool : RolePool) :
    (Reachable Membership.Call.program Membership.Store.UniqueMembers Membership.StampsNew pool →
      Membership.MembersGuarded pool) ∧
    (Reachable Call.program Store.UniqueRoles StampsNew rolePool → RolesGuarded rolePool) :=
  ⟨Membership.members_guarded, roles_guarded⟩

namespace Sample

/-- An owner and a member of an Organization, at millisecond 0. -/
def members : Membership.Store :=
  ⟨0, 0, ["u", "v"], [⟨"org", "acme", false⟩], [],
    [⟨"owner", "org", "u", "owner", none, 0, 0⟩, ⟨"member", "org", "v", "member", none, 0, 0⟩],
    [], [], [], [], [], []⟩

def replace (role : String) : Membership.Call :=
  .replaceMemberRoles "org" "member" [role] "u"

/-- Two changes of one member that were both read before either is written. -/
def rivals (milliseconds : ℕ) : List (Move Membership.Call) :=
  [.start (replace "admin"), .start (replace "developer"), .start (.elapse milliseconds),
    .resume 0, .resume 0, .resume 1, .resume 1, .resume 2, .resume 0, .resume 0, .resume 0,
    .resume 1, .resume 1, .resume 1]

def stampsCheck (pool : Membership.MembershipPool) : Move Membership.Call → Bool
  | .start _ => true
  | .resume i =>
    match pool.pending i with
    | some (_, op) =>
      match op.stamps pool.store with
      | some (id, now) => pool.history.all fun s =>
          (s.findMember id).all fun r => r.updatedAt != now
      | none => true
    | none => true

theorem stampsNew_of_check {pool : Membership.MembershipPool} {m : Move Membership.Call}
    (h : stampsCheck pool m = true) : Membership.StampsNew pool m := by
  rintro i t op rfl hpending id now hstamps s hs r hr
  rw [stampsCheck, hpending] at h
  dsimp only at h
  rw [hstamps] at h
  have hall := List.all_eq_true.mp h s hs
  rw [hr] at hall
  simpa using hall

def succeeded (e : Event Membership.Store Membership.Operation) : Bool :=
  match e.operation with
  | .replaceMemberRoles organizationId memberId roles expectedUpdatedAt audit =>
    match (Membership.Repository.replaceMemberRoles organizationId memberId roles expectedUpdatedAt
      audit).outcome e.before with
    | .ok updated => updated
    | .error _ => false
  | _ => false

theorem succeeds_of_check {e : Event Membership.Store Membership.Operation}
    (h : succeeded e = true) : e.operation.Succeeds e.before := by
  obtain ⟨op, s⟩ := e
  cases op with
  | replaceMemberRoles organizationId memberId roles expectedUpdatedAt audit =>
    rw [succeeded] at h
    dsimp only at h
    split at h
    · rename_i updated houtcome
      rw [h] at houtcome
      exact houtcome
    · cases h
  | _ => cases h

/-- The call changed the member in the version of millisecond 0. -/
def changed (pool : Membership.MembershipPool) (i : ℕ) : Bool :=
  (pool.threads[i]?).any fun t => t.log.any fun e =>
    decide (e.operation.expects = some ("member", 0)) && succeeded e

theorem changed_iff {pool : Membership.MembershipPool} {i : ℕ} (h : changed pool i = true) :
    ∃ t, pool.threads[i]? = some t ∧ ∃ e ∈ t.log, e.operation.expects = some ("member", 0) ∧
      e.operation.Succeeds e.before := by
  obtain ⟨t, ht, hany⟩ := (Option.any_eq_true _ _).mp h
  obtain ⟨e, he, hchecks⟩ := List.any_eq_true.mp hany
  rw [Bool.and_eq_true, decide_eq_true_iff] at hchecks
  exact ⟨t, ht, e, he, hchecks.1, succeeds_of_check hchecks.2⟩

/-- Within one millisecond both changes of the member succeed. -/
theorem changed_twice : ∃ pool : Membership.MembershipPool,
    Reachable Membership.Call.program Membership.Store.UniqueMembers
      (Unrestricted Membership.Call Membership.Store Membership.Operation Failure Unit) pool ∧
    ¬Membership.MembersGuarded pool := by
  have hrun : ((Pool.initial members).run Membership.Call.program (fun _ _ => true)
      (rivals 0)).any (fun pool => changed pool 0 && changed pool 1) = true := by
    decide +kernel
  obtain ⟨pool, hpool, hcheck⟩ := (Option.any_eq_true _ _).mp hrun
  have hunique : members.UniqueMembers := by
    unfold Membership.Store.UniqueMembers
    decide
  refine ⟨pool, Reachable.of_run (fun _ _ _ => trivial) (.initial hunique) hpool, fun h => ?_⟩
  rw [Bool.and_eq_true] at hcheck
  obtain ⟨t, ht, e, he, hexpects, hsucceeds⟩ := changed_iff hcheck.1
  obtain ⟨u, hu, d, hd, hexpects', hsucceeds'⟩ := changed_iff hcheck.2
  exact absurd (h.once 0 1 t u ht hu e he d hd _ _ hexpects hexpects' hsucceeds hsucceeds')
    (by decide)

def rolesCheck (pool : RolePool) : Move Call → Bool
  | .start _ => true
  | .resume i =>
    match pool.pending i with
    | some (_, op) =>
      match op.stamps pool.store with
      | some (key, now) => pool.history.all fun s =>
          (s.findOrganizationRole key.1 key.2).all fun r => r.updatedAt != now
      | none => true
    | none => true

theorem rolesStampsNew_of_check {pool : RolePool} {m : Move Call} (h : rolesCheck pool m = true) :
    StampsNew pool m := by
  rintro i t op rfl hpending key now hstamps s hs r hr
  rw [rolesCheck, hpending] at h
  dsimp only at h
  rw [hstamps] at h
  have hall := List.all_eq_true.mp h s hs
  rw [hr] at hall
  simpa using hall

def rename (displayName : String) : Call :=
  .updateRole "acme" "ops" ⟨some displayName, none, none⟩ (.ok ()) "u"

/-- A role is renamed in the millisecond after that of its creation, before a deletion that was
decided on the old row. -/
def renamed : List (Move Call) :=
  [.start (rename "Operators"), .start delete, .start (.elapse 1)] ++
    List.replicate 3 (.resume 0) ++ List.replicate 3 (.resume 1) ++ [.resume 2] ++
    List.replicate 6 (.resume 0) ++ List.replicate 6 (.resume 1)

/-- One millisecond later one change of the member succeeds and the other one is refused, and so
it is with a role that is renamed and then deleted. -/
theorem changes_guarded_rivals :
    (∃ pool : Membership.MembershipPool, Membership.MembersGuarded pool ∧
      changed pool 0 = true ∧ changed pool 1 = false ∧
      pool.threads.all (fun t => t.rest.result.isSome) = true) ∧
    ∃ pool : RolePool, RolesGuarded pool ∧
      pool.store.roles.map (·.displayName) = ["Operators"] ∧
      pool.threads.all (fun t => t.rest.result.isSome) = true := by
  have hrun : ((Pool.initial members).run Membership.Call.program stampsCheck (rivals 1)).any
      (fun pool => decide (changed pool 0 = true ∧ changed pool 1 = false ∧
        pool.threads.all (fun t => t.rest.result.isSome) = true)) = true := by
    decide +kernel
  have hrun' : ((Pool.initial store).run Call.program rolesCheck renamed).any
      (fun pool => decide (pool.store.roles.map (·.displayName) = ["Operators"] ∧
        pool.threads.all (fun t => t.rest.result.isSome) = true)) = true := by
    decide +kernel
  obtain ⟨pool, hpool, hcheck⟩ := (Option.any_eq_true _ _).mp hrun
  obtain ⟨rolePool, hrolePool, hcheck'⟩ := (Option.any_eq_true _ _).mp hrun'
  have hunique : members.UniqueMembers := by
    unfold Membership.Store.UniqueMembers
    decide
  have huniqueRoles : store.UniqueRoles := by
    unfold Store.UniqueRoles
    decide
  have hreach := Reachable.of_run (fun _ _ => stampsNew_of_check) (.initial hunique) hpool
  have hroles := Reachable.of_run (fun _ _ => rolesStampsNew_of_check) (.initial huniqueRoles)
    hrolePool
  obtain ⟨hmembers, hrenamed⟩ := changes_guarded pool rolePool
  exact ⟨⟨pool, hmembers hreach, of_decide_eq_true hcheck⟩,
    rolePool, hrenamed hroles, of_decide_eq_true hcheck'⟩

end Sample

end FlareAuth.Roles
