import FlareAuth.LastOwner
import FlareAuth.OrganizationRoles

/-!
# Assignments of roles that exist

The deletion of a role looks for its key as a LIKE pattern. An underscore in a key
matches any character, so the pattern may find roles with other keys; but it finds
every role text that has the key, and no assigned role is ever deleted. What may
dangle is an assignment that was validated before a deletion and is written after it.
-/

namespace FlareAuth.Roles

open Concurrent Procedure Relational
open FlareAuth.Membership (RoleKey MemberRow serializeRoles deserializeRoles
  predefinedOrganizationRoleKeys)

section Keys

variable {keys : List RoleKey} {key : RoleKey}

theorem key_ext {key' : RoleKey} (h : key.text = key'.text) : key = key' := by
  cases key
  cases key'
  cases h
  rfl

theorem text_mem_iff : key.text ∈ keys.map (·.text) ↔ key ∈ keys := by
  constructor
  · intro h
    obtain ⟨key', hkey', htext⟩ := List.mem_map.mp h
    rwa [← key_ext htext]
  · intro h
    exact List.mem_map_of_mem h

theorem text_ne_empty : key.text ≠ "" := by
  intro h
  exact key.ne_nil (by rw [h]; rfl)

/-- What is read from the text of some keys are these keys. -/
theorem mem_deserializeRoles_iff :
    key.text ∈ deserializeRoles (serializeRoles (keys.map (·.text))) ↔ key ∈ keys := by
  rw [Membership.mem_deserializeRoles text_ne_empty, text_mem_iff]

theorem key_of_mem_deserializeRoles {name : String}
    (h : name ∈ deserializeRoles (serializeRoles (keys.map (·.text)))) :
    ∃ key ∈ keys, key.text = name := by
  have hne : name ≠ "" := by
    simp only [deserializeRoles, Text.mem_sort, Text.mem_unique, List.mem_filter,
      decide_eq_true_eq] at h
    exact h.2
  exact List.mem_map.mp ((Membership.mem_deserializeRoles hne).mp h)

/-- The pattern finds every role text that has the key. -/
theorem holdsKey_of_mem (h : key ∈ keys) :
    holdsKey (serializeRoles (keys.map (·.text))) key.text = true := by
  have hitem : key.text.toList ∈ Membership.items keys :=
    Membership.mem_items.mpr ⟨key, h, rfl⟩
  have hne : Membership.items keys ≠ [] := List.ne_nil_of_mem hitem
  have hpercent : '%' ∉ key.text.toList := by
    intro hmem
    have hvalid := key.valid
    rw [Membership.isRoleKey, Bool.and_eq_true] at hvalid
    exact Membership.percent_not_mem hvalid.2 hmem
  rw [holdsKey, Membership.toList_serializeRoles, ← Text.fenced_eq hne]
  exact Text.like_fenced_of_mem Membership.items_comma hpercent hitem

end Keys

def Store.Knows (s : Store) (organizationId : Id) (key : RoleKey) : Prop :=
  key ∈ predefinedOrganizationRoleKeys ∨
    ∃ r ∈ s.roles, r.organizationId = organizationId ∧ r.key = key

def Store.Lists (s : Store) (organizationId : Id) (role : String) : Prop :=
  ∃ keys : List RoleKey, role = serializeRoles (keys.map (·.text)) ∧
    ∀ key ∈ keys, s.Knows organizationId key

structure Store.Assigned (s : Store) : Prop where
  members : ∀ m ∈ s.members, s.Lists m.organizationId m.role
  invitations : ∀ i ∈ s.invitations, i.status = .pending → s.Lists i.organizationId i.role

structure Store.NoneDangling (s : Store) : Prop where
  members : ∀ m ∈ s.members, ∀ name ∈ m.roles, ∃ key : RoleKey, key.text = name ∧
    s.Knows m.organizationId key
  invitations : ∀ i ∈ s.invitations, i.status = .pending → ∀ name ∈ i.roles,
    ∃ key : RoleKey, key.text = name ∧ s.Knows i.organizationId key

def Operation.assigns : Operation → Store → Option (Id × List RoleKey)
  | .addMember id organizationId userId roles title now, s =>
    if s.membership.memberInsertable
        ⟨id, organizationId, userId, serializeRoles (roles.map (·.text)), title, now, now⟩ then
      some (organizationId, roles)
    else none
  | .replaceMemberRoles organizationId memberId roles expectedUpdatedAt _, s =>
    if s.members.any (Membership.Repository.rolesCondition s.membership organizationId memberId
        roles expectedUpdatedAt) then
      some (organizationId, roles)
    else none
  | .createInvitation id organizationId _ roles inviterId _ _, s =>
    if (s.findInvitation id).isNone && (s.membership.findOrganization organizationId).isSome &&
        s.users.contains inviterId then
      some (organizationId, roles)
    else none
  | _, _ => none

def Operation.AssignsKnown (op : Operation) (s : Store) : Prop :=
  ∀ organizationId keys, op.assigns s = some (organizationId, keys) →
    ∀ key ∈ keys, s.Knows organizationId key

namespace Store

variable {s t : Store} {organizationId : Id} {role : String}

theorem Lists.mono (h : s.Lists organizationId role)
    (hknows : ∀ key, s.Knows organizationId key → t.Knows organizationId key) :
    t.Lists organizationId role := by
  obtain ⟨keys, hrole, hkeys⟩ := h
  exact ⟨keys, hrole, fun key hkey => hknows key (hkeys key hkey)⟩

/-- More known keys keep what is assigned. -/
theorem Assigned.of_knows (h : s.Assigned) (hmembers : t.members = s.members)
    (hinvitations : t.invitations = s.invitations)
    (hknows : ∀ organizationId key, s.Knows organizationId key → t.Knows organizationId key) :
    t.Assigned := by
  constructor
  · intro m hm
    rw [hmembers] at hm
    exact (h.members m hm).mono (hknows m.organizationId)
  · intro i hi hstatus
    rw [hinvitations] at hi
    exact (h.invitations i hi hstatus).mono (hknows i.organizationId)

/-- A role whose key is listed somewhere is found in use. -/
theorem assignedMember_of_lists {m : MemberRow} (hm : m ∈ s.members) {keys : List RoleKey}
    (hrole : m.role = serializeRoles (keys.map (·.text))) {key : RoleKey} (hkey : key ∈ keys) :
    s.assignedMember m.organizationId key.text = true := by
  rw [assignedMember, List.any_eq_true]
  refine ⟨m, hm, ?_⟩
  rw [hrole, holdsKey_of_mem hkey]
  simp

theorem assignedInvitation_of_lists {i : InvitationRow} (hi : i ∈ s.invitations)
    (hstatus : i.status = .pending) {keys : List RoleKey}
    (hrole : i.role = serializeRoles (keys.map (·.text))) {key : RoleKey} (hkey : key ∈ keys) :
    s.assignedInvitation i.organizationId key.text = true := by
  rw [assignedInvitation, List.any_eq_true]
  refine ⟨i, hi, ?_⟩
  rw [hrole, holdsKey_of_mem hkey, hstatus]
  simp

theorem Assigned.noneDangling (h : s.Assigned) : s.NoneDangling := by
  constructor
  · intro m hm name hname
    obtain ⟨keys, hrole, hkeys⟩ := h.members m hm
    rw [MemberRow.roles, hrole] at hname
    obtain ⟨key, hkey, htext⟩ := key_of_mem_deserializeRoles hname
    exact ⟨key, htext, hkeys key hkey⟩
  · intro i hi hstatus name hname
    obtain ⟨keys, hrole, hkeys⟩ := h.invitations i hi hstatus
    rw [InvitationRow.roles, hrole] at hname
    obtain ⟨key, hkey, htext⟩ := key_of_mem_deserializeRoles hname
    exact ⟨key, htext, hkeys key hkey⟩

end Store
section Steps

variable {s t : Store} {organizationId : Id} {roleKey : String}

/-- A statement that succeeds keeps what is assigned to known roles. -/
theorem assigned_settle {α : Type} {batch : StoreBatch α} (h : s.Assigned)
    (hbatch : ∀ a t, batch s = .ok (a, t) → t.Assigned) : (batch.settle s).Assigned := by
  rcases hs : batch s with e | ⟨a, t⟩
  · rwa [Batch.settle_of_error hs]
  · rw [Batch.settle_of_ok hs]
    exact hbatch a t hs

theorem createOrganizationRole_eq_ok {r : RoleRow} {audit : Audit} {u : Unit}
    (h : Repository.createOrganizationRole r audit s = .ok (u, t)) :
    (∀ other ∈ s.roles, ¬(other.organizationId = r.organizationId ∧ other.key = r.key)) ∧
      t = { s with roles := s.roles ++ [r], audits := s.audits ++ [audit] } := by
  unfold Repository.createOrganizationRole at h
  split at h
  · cases h
  · rename_i hfree
    split at h
    · cases h
    · cases h
      refine ⟨fun other hother heq => hfree ?_, rfl⟩
      rw [List.any_eq_true]
      exact ⟨other, hother, by simp [heq.1, heq.2]⟩

theorem assigned_createOrganizationRole (h : s.Assigned) (r : RoleRow) (audit : Audit) :
    ((Repository.createOrganizationRole r audit).settle s).Assigned := by
  refine assigned_settle h fun _ t ht => ?_
  obtain ⟨_, rfl⟩ := createOrganizationRole_eq_ok ht
  refine h.of_knows rfl rfl fun organizationId key hknows => ?_
  rcases hknows with hpredefined | ⟨r', hr', hrow⟩
  · exact .inl hpredefined
  · exact .inr ⟨r', List.mem_append_left _ hr', hrow⟩

/-- The patch of a role leaves its key and its Organization. -/
theorem assigned_updateOrganizationRole (h : s.Assigned) (patch : RolePatch)
    (expectedUpdatedAt : ℕ) (audit : Audit) :
    ((Repository.updateOrganizationRole organizationId roleKey patch expectedUpdatedAt
      audit).settle s).Assigned := by
  refine h.of_knows rfl rfl fun organizationId' key hknows => ?_
  rcases hknows with hpredefined | ⟨r, hr, horganization, hkey⟩
  · exact .inl hpredefined
  · refine .inr ⟨_, List.mem_map_of_mem hr, ?_, ?_⟩
    · split
      · exact horganization
      · exact horganization
    · split
      · exact hkey
      · exact hkey

/-- What a member or a pending invitation lists stays when an unassigned role is deleted. -/
theorem lists_delete {organizationId' : Id} {role : String} {expectedUpdatedAt : ℕ}
    (hlists : s.Lists organizationId' role)
    (hused : ∀ keys : List RoleKey, role = serializeRoles (keys.map (·.text)) → ∀ key ∈ keys,
      s.assignedMember organizationId' key.text = true ∨
        s.assignedInvitation organizationId' key.text = true)
    (hroles : t.roles = s.roles.filter fun r =>
      !s.deletionCondition organizationId roleKey expectedUpdatedAt r) :
    t.Lists organizationId' role := by
  obtain ⟨keys, hrole, hkeys⟩ := hlists
  refine ⟨keys, hrole, fun key hkey => ?_⟩
  rcases hkeys key hkey with hpredefined | ⟨r, hr, rfl, rfl⟩
  · exact .inl hpredefined
  · refine .inr ⟨r, ?_, rfl, rfl⟩
    have huse := hused keys hrole r.key hkey
    rw [hroles, List.mem_filter]
    refine ⟨hr, ?_⟩
    by_contra hdeleted
    simp only [Store.deletionCondition, Store.unchangedRole, Bool.not_eq_true', Bool.not_eq_false,
      Bool.and_eq_true, beq_iff_eq] at hdeleted
    obtain ⟨⟨⟨⟨horganization, htext⟩, _⟩, hmember⟩, hinvitation⟩ := hdeleted
    rw [horganization, htext, hmember, hinvitation] at huse
    simp at huse

theorem assigned_deleteOrganizationRole (h : s.Assigned) (expectedUpdatedAt : ℕ) (audit : Audit) :
    ((Repository.deleteOrganizationRole organizationId roleKey expectedUpdatedAt
      audit).settle s).Assigned := by
  constructor
  · intro m hm
    refine lists_delete (h.members m hm) (fun keys hrole key hkey => .inl ?_) rfl
    exact Store.assignedMember_of_lists hm hrole hkey
  · intro i hi hstatus
    refine lists_delete (h.invitations i hi hstatus) (fun keys hrole key hkey => .inr ?_) rfl
    exact Store.assignedInvitation_of_lists hi hstatus hrole hkey

theorem assigned_addMember {id userId : Id} {roles : List RoleKey} {title : Option String}
    {now : ℕ} (h : s.Assigned)
    (hknown : (Operation.addMember id organizationId userId roles title now).AssignsKnown s) :
    ((Repository.addMember id organizationId userId roles title now).settle s).Assigned := by
  refine assigned_settle h fun _ t ht => ?_
  unfold Repository.addMember at ht
  dsimp only at ht
  split at ht
  · rename_i hinsertable
    have hkeys := hknown organizationId roles (if_pos hinsertable)
    cases ht
    constructor
    · intro m hm
      rcases List.mem_append.mp hm with hm | hm
      · exact h.members m hm
      · rw [List.mem_singleton.mp hm]
        exact ⟨roles, rfl, hkeys⟩
    · exact h.invitations
  · cases ht

theorem organizationId_of_rolesCondition {memberId : Id} {roles : List RoleKey}
    {expectedUpdatedAt : ℕ} {u : Membership.Store} {m : MemberRow}
    (h : Membership.Repository.rolesCondition u organizationId memberId roles expectedUpdatedAt m =
      true) : m.organizationId = organizationId := by
  unfold Membership.Repository.rolesCondition at h
  simp only [Bool.and_eq_true, beq_iff_eq] at h
  exact h.1.1.2

theorem assigned_replaceMemberRoles {memberId : Id} {roles : List RoleKey}
    {expectedUpdatedAt : ℕ} {audit : Audit} (h : s.Assigned)
    (hknown : (Operation.replaceMemberRoles organizationId memberId roles expectedUpdatedAt
      audit).AssignsKnown s) :
    ((Repository.replaceMemberRoles organizationId memberId roles expectedUpdatedAt
      audit).settle s).Assigned := by
  constructor
  · intro m hm
    obtain ⟨m', hm', rfl⟩ := List.mem_map.mp hm
    split
    · rename_i hcondition
      have hassigns := hknown organizationId roles
        (if_pos (List.any_eq_true.mpr ⟨m', hm', hcondition⟩))
      rw [← organizationId_of_rolesCondition hcondition] at hassigns
      exact ⟨roles, rfl, hassigns⟩
    · exact h.members m' hm'
  · exact h.invitations

theorem assigned_createInvitation {id inviterId : Id} {email : String} {roles : List RoleKey}
    {expiresAt now : ℕ} (h : s.Assigned)
    (hknown : (Operation.createInvitation id organizationId email roles inviterId expiresAt
      now).AssignsKnown s) :
    ((Repository.createInvitation id organizationId email roles inviterId expiresAt
      now).settle s).Assigned := by
  refine assigned_settle h fun _ t ht => ?_
  unfold Repository.createInvitation at ht
  split at ht
  · rename_i hinsertable
    have hkeys := hknown organizationId roles (if_pos hinsertable)
    cases ht
    constructor
    · exact h.members
    · intro i hi hstatus
      rcases List.mem_append.mp hi with hi | hi
      · exact h.invitations i hi hstatus
      · rw [List.mem_singleton.mp hi]
        exact ⟨roles, rfl, hkeys⟩
  · cases ht

theorem assigned_cancelInvitation (h : s.Assigned) (id : Id) (now : ℕ) :
    ((Repository.cancelInvitation id now).settle s).Assigned := by
  constructor
  · exact h.members
  · intro i hi hstatus
    obtain ⟨i', hi', rfl⟩ := List.mem_map.mp hi
    split at hstatus
    · cases hstatus
    · rename_i hother
      rw [if_neg hother]
      exact h.invitations i' hi' hstatus

/-- What one operation keeps if what it assigns is known when it is performed. -/
theorem assigned_apply {op : Operation} (h : s.Assigned) (hknown : op.AssignsKnown s) :
    (apply op s).Assigned := by
  cases op with
  | read => exact h
  | generateId => exact h.of_knows rfl rfl fun _ _ hknows => hknows
  | elapse milliseconds => exact h.of_knows rfl rfl fun _ _ hknows => hknows
  | setClock now => exact h.of_knows rfl rfl fun _ _ hknows => hknows
  | createOrganizationRole r audit => exact assigned_createOrganizationRole h r audit
  | updateOrganizationRole organizationId roleKey patch expectedUpdatedAt audit =>
    exact assigned_updateOrganizationRole h patch expectedUpdatedAt audit
  | deleteOrganizationRole organizationId roleKey expectedUpdatedAt audit =>
    exact assigned_deleteOrganizationRole h expectedUpdatedAt audit
  | addMember id organizationId userId roles title now => exact assigned_addMember h hknown
  | replaceMemberRoles organizationId memberId roles expectedUpdatedAt audit =>
    exact assigned_replaceMemberRoles h hknown
  | createInvitation id organizationId email roles inviterId expiresAt now =>
    exact assigned_createInvitation h hknown
  | cancelInvitation id now => exact assigned_cancelInvitation h id now

/-- A role text that lists a key which is not known dangles. -/
theorem knows_of_noneDangling {keys : List RoleKey} {key : RoleKey}
    (h : ∀ name ∈ deserializeRoles (serializeRoles (keys.map (·.text))),
      ∃ key : RoleKey, key.text = name ∧ t.Knows organizationId key) (hkey : key ∈ keys) :
    t.Knows organizationId key := by
  obtain ⟨key', htext, hknows⟩ := h key.text (mem_deserializeRoles_iff.mpr hkey)
  rwa [key_ext htext] at hknows

/-- An assignment of a role that is not known leaves it dangling. -/
theorem assignsKnown_of_noneDangling {op : Operation} (h : (apply op s).NoneDangling) :
    op.AssignsKnown s := by
  intro organizationId keys hassigns key hkey
  cases op with
  | addMember id organizationId' userId roles title now =>
    rw [Operation.assigns] at hassigns
    split at hassigns
    · rename_i hinsertable
      cases hassigns
      have hstep : Repository.addMember id organizationId userId keys title now s = .ok ((), _) :=
        if_pos hinsertable
      change ((Repository.addMember id organizationId userId keys title now).settle s).NoneDangling
        at h
      rw [Batch.settle_of_ok hstep] at h
      have hmember := h.members _ (List.mem_append_right _ (List.mem_singleton_self _))
      exact knows_of_noneDangling hmember hkey
    · cases hassigns
  | replaceMemberRoles organizationId' memberId roles expectedUpdatedAt audit =>
    rw [Operation.assigns] at hassigns
    split at hassigns
    · rename_i hfound
      cases hassigns
      obtain ⟨m, hm, hcondition⟩ := List.any_eq_true.mp hfound
      have horganization := organizationId_of_rolesCondition hcondition
      have hreplaced : { m with
          role := serializeRoles (keys.map (·.text))
          updatedAt := audit.occurredAt } ∈ ((Repository.replaceMemberRoles organizationId memberId
            keys expectedUpdatedAt audit).settle s).members :=
        mem_updateWhere_of hm hcondition
      have hmember := h.members _ hreplaced
      subst horganization
      exact knows_of_noneDangling hmember hkey
    · cases hassigns
  | createInvitation id organizationId' email roles inviterId expiresAt now =>
    rw [Operation.assigns] at hassigns
    split at hassigns
    · rename_i hinsertable
      cases hassigns
      have hstep : Repository.createInvitation id organizationId email keys inviterId
        expiresAt now s
          = .ok ((), _) := if_pos hinsertable
      change ((Repository.createInvitation id organizationId email keys inviterId expiresAt
        now).settle s).NoneDangling at h
      rw [Batch.settle_of_ok hstep] at h
      have hinvitation := h.invitations _ (List.mem_append_right _ (List.mem_singleton_self _)) rfl
      exact knows_of_noneDangling hinvitation hkey
    · cases hassigns
  | read | generateId | elapse | setClock | createOrganizationRole | updateOrganizationRole
  | deleteOrganizationRole | cancelInvitation => cases hassigns

end Steps

section Runs

def Operation.Unreserved : Operation → Prop
  | .createOrganizationRole r _ => r.key ∉ predefinedOrganizationRoleKeys
  | _ => True

variable {α : Type}

@[simp] theorem only_look (answer : Store → α) : (look answer).Only Operation.Unreserved :=
  only_query.mpr trivial

@[simp] theorem only_generateId : generateId.Only Operation.Unreserved := only_query.mpr trivial

@[simp] theorem only_commit {op : Operation} {batch : StoreBatch α} :
    (commit op batch).Only Operation.Unreserved ↔ op.Unreserved := by
  simp [commit]

@[simp] theorem only_getOrganization (id : Id) :
    (getOrganization id).Only Operation.Unreserved := by
  simp [getOrganization]

@[simp] theorem only_requireMemberForOrganization (id organizationId : Id) :
    (requireMemberForOrganization id organizationId).Only Operation.Unreserved := by
  simp [requireMemberForOrganization]

@[simp] theorem only_validateOrganizationRoleKeys (organizationId : Id) (roles : List String) :
    (validateOrganizationRoleKeys organizationId roles).Only Operation.Unreserved := by
  simp [validateOrganizationRoleKeys]

@[simp] theorem only_roleAudit (action : String) (organizationId controllerUserId : Id)
    (roleKey : String) (occurredAt : ℕ) :
    (roleAudit action organizationId controllerUserId roleKey occurredAt).Only
      Operation.Unreserved := by
  simp [roleAudit]

@[simp] theorem only_getRole (organizationId : Id) (roleKey : String) :
    (getRole organizationId roleKey).Only Operation.Unreserved := by
  unfold getRole
  refine only_bind.mpr ⟨by simp [predefinedRoleRepresentations], fun predefined _ => ?_⟩
  split
  · exact only_done _
  · simp [getStoredRole]

@[simp] theorem only_rejectLastOwnerMutation (member : MemberRow) :
    (rejectLastOwnerMutation member).Only Operation.Unreserved := by
  simp [rejectLastOwnerMutation]

@[simp] theorem only_explainDeletion (organizationId : Id) (roleKey : String) :
    (explainDeletion organizationId roleKey).Only Operation.Unreserved := by
  simp [explainDeletion]

/-- The contract of a call: what it creates is not reserved. -/
theorem program_contract (call : Call) : call.program.Obeys
    (fun _ _ op => op.Unreserved) (fun _ _ => True) [] := by
  have honly : ∀ {p : RoleAdministration Unit} {log : Log Store Operation},
      p.Only Operation.Unreserved →
      p.Obeys (fun _ _ op => op.Unreserved) (fun _ _ => True) log := by
    intro p log hp
    exact hp.obeys (fun _ _ _ h => h) (fun _ _ _ _ => trivial) fun _ _ _ => trivial
  cases call with
  | createRole organizationId input checks actorUserId =>
    refine (only_getOrganization organizationId).obeys_bind (fun _ _ _ h => h)
      (fun log _ _ _ => ?_) fun _ _ _ => trivial
    refine obeys_require_bind (fun hkey => honly ?_) fun _ => trivial
    simp [Operation.Unreserved, hkey]
  | updateRole organizationId roleKey patch checks actorUserId =>
    exact honly (by simp [Call.program, updateRole, Operation.Unreserved])
  | deleteRole organizationId roleKey actorUserId =>
    exact honly (by simp [Call.program, deleteRole, Operation.Unreserved])
  | addMember organizationId userId roles title =>
    exact honly (by simp [Call.program, addMember, Operation.Unreserved])
  | replaceMemberRoles organizationId memberId roles actorUserId =>
    exact honly (by simp [Call.program, replaceMemberRoles, Operation.Unreserved])
  | createInvitation organizationId email roles expiresAt actorUserId =>
    exact honly (by simp [Call.program, createInvitation, Operation.Unreserved])
  | cancelInvitation organizationId id =>
    exact honly (by simp [Call.program, cancelInvitation, Operation.Unreserved])
  | elapse milliseconds => exact honly (by simp [Call.program, Operation.Unreserved])
  | setClock now => exact honly (by simp [Call.program, Operation.Unreserved])

/-- An assignment that takes effect finds its roles. -/
def AssignsKnown (pool : RolePool) (m : Move Call) : Prop :=
  ∀ i t op, m = .resume i → pool.pending i = some (t, op) → op.AssignsKnown pool.store

variable {pool pool' : RolePool} {m : Move Call}

theorem assigned_of_reachable
    (h : Reachable Call.program Store.Assigned AssignsKnown pool) : pool.store.Assigned := by
  refine h.keeps (fun _ hs => hs) fun pool i t op _ hok hpending ih => ?_
  exact assigned_apply ih (hok i t op rfl hpending)

/-- The step of a pool without dangling roles keeps it so exactly if its assignment is known. -/
theorem noneDangling_next_iff (h : pool.store.Assigned)
    (hnext : pool.next Call.program m = some pool') :
    pool'.store.NoneDangling ↔ AssignsKnown pool m := by
  constructor
  · rintro hdangling i t op rfl hpending
    obtain ⟨t', op', hpending', hstore, _⟩ := Pool.thread_resumed hnext
    obtain ⟨rfl, rfl⟩ : t' = t ∧ op' = op := by simpa [hpending] using hpending'.symm
    rw [hstore] at hdangling
    exact assignsKnown_of_noneDangling hdangling
  · intro hok
    cases m with
    | start c =>
      simp only [Pool.next, Option.some.injEq] at hnext
      subst hnext
      exact h.noneDangling
    | resume i =>
      obtain ⟨t, op, hpending, hstore, _⟩ := Pool.thread_resumed hnext
      rw [hstore]
      exact (assigned_apply h (hok i t op rfl hpending)).noneDangling

def Store.Unheld (s : Store) (organizationId : Id) (key : RoleKey) : Prop :=
  (∀ m ∈ s.members, m.organizationId = organizationId → key.text ∉ m.roles) ∧
    ∀ i ∈ s.invitations, i.status = .pending → i.organizationId = organizationId →
      key.text ∉ i.roles

/-- The key of a role that can be created is held by nobody. -/
theorem unheld_of_creation {s : Store} (h : s.Assigned) {r : RoleRow} {audit : Audit}
    (hkey : r.key ∉ predefinedOrganizationRoleKeys)
    (hcreated : (Repository.createOrganizationRole r audit).outcome s = .ok ()) :
    s.Unheld r.organizationId r.key := by
  obtain ⟨hfree, _⟩ := createOrganizationRole_eq_ok (Batch.outcome_eq_ok hcreated)
  have hunknown : ∀ key : RoleKey, key.text = r.key.text → ¬s.Knows r.organizationId key := by
    intro key htext hknows
    rw [key_ext htext] at hknows
    rcases hknows with hpredefined | ⟨other, hother, hsame⟩
    · exact hkey hpredefined
    · exact hfree other hother hsame
  constructor
  · intro m hm horganization hheld
    obtain ⟨key, htext, hknows⟩ := h.noneDangling.members m hm _ hheld
    rw [horganization] at hknows
    exact hunknown key htext hknows
  · intro i hi hstatus horganization hheld
    obtain ⟨key, htext, hknows⟩ := h.noneDangling.invitations i hi hstatus _ hheld
    rw [horganization] at hknows
    exact hunknown key htext hknows

end Runs

/-- In every run whose assignments find their roles when they are written, no held role dangles and
no created role has a key that is held. A step of such a run that writes another assignment
leaves a dangling role. -/
theorem no_role_dangles {pool : RolePool}
    (h : Reachable Call.program Store.Assigned AssignsKnown pool) :
    pool.store.NoneDangling ∧
    (∀ t ∈ pool.threads, ∀ d ∈ t.log, ∀ r audit, d.operation = .createOrganizationRole r audit →
      (Repository.createOrganizationRole r audit).outcome d.before = .ok () →
      d.before.Unheld r.organizationId r.key) ∧
    ∀ m pool', pool.next Call.program m = some pool' →
      (pool'.store.NoneDangling ↔ AssignsKnown pool m) := by
  have hassigned := assigned_of_reachable h
  refine ⟨hassigned.noneDangling, ?_, fun m pool' => noneDangling_next_iff hassigned⟩
  intro t ht d hd r audit hop hcreated
  obtain ⟨later, earlier, hlog⟩ := List.append_of_mem hd
  obtain ⟨pool₀, i, t₀, after, hreach, _, hi, _, _, hrest, hstore, _⟩ := h.of_log ht hlog
  obtain ⟨_, hunreserved⟩ :=
    hreach.pending_obeys program_contract (Pool.pending_of_step hi hrest)
  rw [hop] at hunreserved
  rw [← hstore] at hcreated ⊢
  exact unheld_of_creation (assigned_of_reachable hreach) hunreserved hcreated

namespace Sample

def ops : RoleKey := ⟨"ops", by decide⟩

/-- An Organization with a role that nobody holds. -/
def store : Store where
  now := 0
  generated := 0
  realmroot := some "realmroot"
  users := ["u", "v"]
  organizations := [⟨"acme", "acme", false⟩]
  roles := [⟨"r", "acme", ops, [], "Operations", none, 0, 0⟩]
  members := []
  invitations := []
  audits := []

theorem assigned_store : store.Assigned := by
  constructor
  · intro m hm
    cases hm
  · intro i hi
    cases hi

def assign (user : Id) : Call := .addMember "acme" user ["ops"] none

def delete : Call := .deleteRole "acme" "ops" "u"

def create : Call := .createRole "acme" ⟨ops, "Operators", none, []⟩ (.ok ()) "u"

/-- The role is deleted when the new member's roles have been validated, and created again when
the member has been added. -/
def overtaken : List (Move Call) :=
  .start (assign "u") :: List.replicate 4 (.resume 0) ++
    .start delete :: List.replicate 6 (.resume 1) ++
    .resume 0 :: .start create :: List.replicate 5 (.resume 2)

/-- The deletion finds the role assigned. -/
def guarded : List (Move Call) :=
  .start (assign "u") :: List.replicate 5 (.resume 0) ++
    .start delete :: List.replicate 8 (.resume 1)

def assignsCheck (pool : RolePool) : Move Call → Bool
  | .start _ => true
  | .resume i =>
    match pool.pending i with
    | some (_, op) =>
      match op.assigns pool.store with
      | some (organizationId, keys) => keys.all fun key =>
        predefinedOrganizationRoleKeys.contains key || pool.store.roles.any fun r =>
          r.organizationId == organizationId && r.key == key
      | none => true
    | none => true

end Sample

theorem assignsKnown_of_check {pool : RolePool} {m : Move Call}
    (h : Sample.assignsCheck pool m = true) : AssignsKnown pool m := by
  rintro i t op rfl hpending organizationId keys hassigns key hkey
  rw [Sample.assignsCheck, hpending] at h
  dsimp only at h
  rw [hassigns] at h
  have hknown := List.all_eq_true.mp h key hkey
  simpa [Store.Knows] using hknown

/-- A deletion that comes after the assignment is refused. -/
theorem no_role_dangles_sample : ∃ pool : RolePool, pool.store.NoneDangling ∧
    pool.store.roles.length = 1 ∧ pool.store.members.length = 1 ∧
      (∀ t ∈ pool.threads, t.rest.result.isSome = true) := by
  have hrun : ((Pool.initial Sample.store).run Call.program Sample.assignsCheck
      Sample.guarded).any (fun pool => pool.store.roles.length == 1 &&
        pool.store.members.length == 1 && pool.threads.all fun t => t.rest.result.isSome) =
      true := by
    decide +kernel
  obtain ⟨pool, hpool, hcheck⟩ := (Option.any_eq_true _ _).mp hrun
  simp only [Bool.and_eq_true, beq_iff_eq, List.all_eq_true] at hcheck
  have hreach := Reachable.of_run (fun _ _ => assignsKnown_of_check)
    (.initial Sample.assigned_store) hpool
  exact ⟨pool, (no_role_dangles hreach).1, hcheck.1.1, hcheck.1.2, hcheck.2⟩

/-- A role that was deleted between the validation and the write of an assignment dangles. -/
theorem role_dangles : ∃ pool : RolePool,
    Reachable Call.program Store.Assigned (Unrestricted _ _ _ _ _) pool ∧
      (∃ s ∈ pool.history, ¬s.NoneDangling) ∧
      ∃ r ∈ pool.store.roles, r.displayName = "Operators" ∧
        ∃ m ∈ pool.store.members, m.organizationId = r.organizationId ∧ r.key.text ∈ m.roles := by
  have hrun : ((Pool.initial Sample.store).run Call.program (fun _ _ => true)
      Sample.overtaken).any (fun pool =>
        (pool.history.any fun s => s.roles.isEmpty && s.members.any fun m =>
          m.roles.contains "ops") &&
        pool.store.roles.any fun r => r.displayName == "Operators" && pool.store.members.any
          fun m => m.organizationId == r.organizationId && m.roles.contains r.key.text) = true := by
    decide +kernel
  obtain ⟨pool, hpool, hcheck⟩ := (Option.any_eq_true _ _).mp hrun
  rw [Bool.and_eq_true] at hcheck
  obtain ⟨hdangling, hrecreated⟩ := hcheck
  refine ⟨pool, Reachable.of_run (fun _ _ _ => trivial) (.initial Sample.assigned_store) hpool,
    ?_, ?_⟩
  · obtain ⟨s, hs, hfound⟩ := List.any_eq_true.mp hdangling
    simp only [Bool.and_eq_true, List.isEmpty_iff, List.any_eq_true, List.contains_eq_mem,
      decide_eq_true_eq] at hfound
    obtain ⟨hroles, m, hm, hheld⟩ := hfound
    refine ⟨s, hs, fun h => ?_⟩
    obtain ⟨key, htext, hpredefined | ⟨r, hr, _⟩⟩ := h.members m hm "ops" hheld
    · have hkey : key = Sample.ops := key_ext htext
      rw [hkey] at hpredefined
      revert hpredefined
      decide
    · rw [hroles] at hr
      cases hr
  · simpa only [List.any_eq_true, Bool.and_eq_true, beq_iff_eq, List.contains_eq_mem,
      decide_eq_true_eq] using hrecreated

end FlareAuth.Roles
