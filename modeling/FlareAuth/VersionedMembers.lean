import FlareAuth.Concurrent.Versions
import FlareAuth.OrganizationMembers
import FlareAuth.Relational.Stamped

/-!
# Versions of members

The time of its last change is the version of a member. The statements that change
the roles or remove the member ask for the version that was read; a change of the
title, which asks for nothing, writes a new one. Versions tell the rows of a member
apart only where no two of them bear one millisecond.
-/

namespace FlareAuth.Membership

open Concurrent Procedure Relational

/-- The member that a statement changes, and the version that it asks for. -/
def Operation.expects : Operation → Option (Id × ℕ)
  | .replaceMemberRoles _ memberId _ expectedUpdatedAt _ => some (memberId, expectedUpdatedAt)
  | .removeMember _ memberId expectedUpdatedAt _ _ => some (memberId, expectedUpdatedAt)
  | _ => none

/-- A statement on a version reports that it changed the member. -/
def Operation.Succeeds : Operation → Store → Prop
  | .replaceMemberRoles organizationId memberId roles expectedUpdatedAt audit, s =>
    (Repository.replaceMemberRoles organizationId memberId roles expectedUpdatedAt
      audit).outcome s = .ok true
  | .removeMember organizationId memberId expectedUpdatedAt audit now, s =>
    (Repository.removeMember organizationId memberId expectedUpdatedAt audit now).outcome s =
      .ok true
  | _, _ => False

/-- The member whose row an operation writes if it takes effect, and the version that it writes. -/
def Operation.stamps (s : Store) : Operation → Option (Id × ℕ)
  | .createOrganization _ ownerId _ _ now => some (ownerId, now)
  | .addMember id _ _ _ _ now => some (id, now)
  | .updateMember id _ now => if (s.findMember id).isSome then some (id, now) else none
  | .replaceMemberRoles organizationId memberId roles expectedUpdatedAt audit =>
    if s.members.any (Repository.rolesCondition s organizationId memberId roles
        expectedUpdatedAt) then
      some (memberId, audit.occurredAt)
    else none
  | _ => none

/-- A row of a member is written at a time that no earlier row of the member bears. -/
def StampsNew (pool : MembershipPool) (m : Move Call) : Prop :=
  ∀ i t op, m = .resume i → pool.pending i = some (t, op) →
    ∀ id now, op.stamps pool.store = some (id, now) →
    ∀ s ∈ pool.history, ∀ r, s.findMember id = some r → r.updatedAt ≠ now

abbrev MembersGuarded : MembershipPool → Prop :=
  Guarded (fun id s => s.findMember id) MemberRow.updatedAt Operation.expects Operation.Succeeds

section Steps

variable {s : Store} {op : Operation} {r : MemberRow}

def Store.UniqueMembers (s : Store) : Prop := (s.members.map (·.id)).Nodup

theorem findMember_of_mem (hunique : s.UniqueMembers) (h : r ∈ s.members) :
    s.findMember r.id = some r := lookup_of_mem hunique h

theorem insertMember_eq_ok {m : MemberRow} {t : Store} {u : Unit}
    (h : Repository.insertMember m s = .ok (u, t)) :
    (∀ other ∈ s.members, other.id ≠ m.id) ∧ t.members = s.members ++ [m] := by
  unfold Repository.insertMember at h
  split at h
  · rename_i hinsertable
    cases h
    simp only [Store.memberInsertable, Bool.and_eq_true, List.all_eq_true,
      bne_iff_ne] at hinsertable
    exact ⟨fun other hother => (hinsertable.1.1 other hother).1, rfl⟩
  · cases h

theorem createOrganization_eq_ok {o : Organization} {ownerId userId : Id} {roles : List RoleKey}
    {now : ℕ} {t : Store} {u : Unit}
    (h : Repository.createOrganization o ownerId userId roles now s = .ok (u, t)) :
    (∀ other ∈ s.members, other.id ≠ ownerId) ∧ t.members = s.members ++
      [⟨ownerId, o.id, userId, serializeRoles (roles.map (·.text)), none, now, now⟩] := by
  obtain ⟨_, s', hs', ht⟩ := Batch.bind_eq_ok.mp h
  have hsame : s'.members = s.members := by
    unfold Repository.insertOrganization at hs'
    split at hs'
    · cases hs'
      rfl
    · cases hs'
  have hinsert := insertMember_eq_ok ht
  rwa [hsame] at hinsert

abbrev StampedMembers (op : Operation) (s t : Store) : Prop :=
  Stamped (·.id) MemberRow.updatedAt (op.stamps s) s.members t.members

/-- A batch that inserts a member with the stamp of the operation, or fails. -/
theorem stampedMembers_settle {batch : StoreBatch Unit} (m : MemberRow) (hbatch : ∀ u t,
      batch s = .ok (u, t) → (∀ other ∈ s.members, other.id ≠ m.id) ∧ t.members = s.members ++ [m])
    (hstamp : op.stamps s = some (m.id, m.updatedAt)) : StampedMembers op s (batch.settle s) := by
  unfold StampedMembers
  rcases hs : batch s with e | ⟨u, t⟩
  · rw [Batch.settle_of_error hs]
    exact .same
  · obtain ⟨hnew, hmembers⟩ := hbatch u t hs
    rw [Batch.settle_of_ok hs, hmembers]
    exact .insert hnew hstamp

theorem stampedMembers_apply (op : Operation) (s : Store) : StampedMembers op s (apply op s) := by
  cases op with
  | read | generateId | elapse | setClock => exact .same
  | createOrganization o ownerId userId roles now =>
    exact stampedMembers_settle ⟨ownerId, o.id, userId, serializeRoles (roles.map (·.text)), none,
      now, now⟩ (fun _ _ => createOrganization_eq_ok) rfl
  | createOrganizationRole organizationId key audit =>
    change StampedMembers _ s
      ((Repository.createOrganizationRole organizationId key audit).settle s)
    unfold Batch.settle Repository.createOrganizationRole
    by_cases h : (organizationId, key) ∈ s.organizationRoles
    · rw [if_pos h]
      exact .same
    · rw [if_neg h]
      exact .same
  | addMember id organizationId userId roles title now =>
    let m : MemberRow :=
      ⟨id, organizationId, userId, serializeRoles (roles.map (·.text)), title, now, now⟩
    have hinsert : ∀ u t, Repository.insertMember m s = .ok (u, t) →
        (∀ other ∈ s.members, other.id ≠ m.id) ∧ t.members = s.members ++ [m] :=
      fun _ _ => insertMember_eq_ok
    exact stampedMembers_settle m hinsert rfl
  | updateMember id title now =>
    refine .update (fun _ => rfl) fun m hm hp => ?_
    have hid : m.id = id := by simpa using hp
    have hfound : (s.findMember id).isSome = true := by
      rw [Store.findMember, List.find?_isSome]
      exact ⟨m, hm, by simpa using hid⟩
    rw [Operation.stamps, if_pos hfound, hid]
  | replaceMemberRoles organizationId memberId roles expectedUpdatedAt audit =>
    refine .update (fun _ => rfl) fun m hm hp => ?_
    have hany := List.any_eq_true.mpr ⟨m, hm, hp⟩
    have hid : m.id = memberId := by
      unfold Repository.rolesCondition at hp
      simp only [Bool.and_eq_true, beq_iff_eq] at hp
      exact hp.1.1.1
    rw [hid]
    exact if_pos hany
  | removeMember organizationId memberId expectedUpdatedAt audit now => exact .delete _

/-- A statement on a version that succeeds replaces the row of that version. -/
theorem replaces_of_succeeds (hunique : s.UniqueMembers) {id : Id} {v : ℕ}
    (hexpects : op.expects = some (id, v)) (hnew : ∀ now, op.stamps s = some (id, now) →
      ∀ r, s.findMember id = some r → r.updatedAt ≠ now) (hsucceeds : op.Succeeds s) :
    Replaces (fun s => Store.findMember s id) MemberRow.updatedAt v ⟨op, s⟩ := by
  cases op with
  | replaceMemberRoles organizationId memberId roles expectedUpdatedAt audit =>
    cases hexpects
    obtain ⟨m, hm, hcondition⟩ := selected_iff.mp hsucceeds
    have hwritten := hnew audit.occurredAt (if_pos (List.any_eq_true.mpr ⟨m, hm, hcondition⟩))
    have hselected := hcondition
    simp only [Repository.rolesCondition, Bool.and_eq_true, beq_iff_eq] at hcondition
    obtain ⟨⟨⟨hid, _⟩, hversion⟩, _⟩ := hcondition
    have hfound : s.findMember id = some m := hid ▸ findMember_of_mem hunique hm
    exact ⟨m, hfound, hversion, lookup_updateWhere_ne MemberRow.updatedAt hselected
      (fun _ => rfl) (hwritten m hfound)⟩
  | removeMember organizationId memberId expectedUpdatedAt audit now =>
    cases hexpects
    obtain ⟨m, hm, hcondition⟩ := selected_iff.mp hsucceeds
    have hselected := hcondition
    simp only [Repository.removalCondition, Bool.and_eq_true, beq_iff_eq] at hcondition
    obtain ⟨⟨⟨hid, _⟩, hversion⟩, _⟩ := hcondition
    exact ⟨m, hid ▸ findMember_of_mem hunique hm, hversion, lookup_filter_ne hselected⟩
  | _ => cases hexpects

/-- A statement on a version that does not succeed changes nothing. -/
theorem unchanged_of_not_succeeds {id : Id} {v : ℕ} (hexpects : op.expects = some (id, v))
    (hrefused : ¬op.Succeeds s) : apply op s = s := by
  cases op with
  | replaceMemberRoles organizationId memberId roles expectedUpdatedAt audit =>
    have hno := mt selected_iff.mpr hrefused
    change { s with
      audits := s.audits ++ (s.members.filter (Repository.rolesCondition s organizationId memberId
        roles expectedUpdatedAt)).map fun _ => audit
      members := updateWhere (Repository.rolesCondition s organizationId memberId roles
        expectedUpdatedAt) _ s.members } = s
    rw [filter_of_unselected hno, updateWhere_of_unselected hno, List.map_nil, List.append_nil]
  | removeMember organizationId memberId expectedUpdatedAt audit now =>
    have hno := mt selected_iff.mpr hrefused
    have hempty : s.members.filter (Repository.removalCondition s organizationId memberId
        expectedUpdatedAt) = [] := filter_of_unselected hno
    change { s with
      audits := s.audits ++ (s.members.filter (Repository.removalCondition s organizationId memberId
        expectedUpdatedAt)).map fun _ => audit
      teamMembers := _
      refreshTokens := _
      sessions := _
      members := s.members.filter fun m =>
        !Repository.removalCondition s organizationId memberId expectedUpdatedAt m } = s
    rw [delete_of_unselected hno]
    simp [updateWhere, hempty]
  | _ => cases hexpects

end Steps

section Contract

variable {α β : Type}

/-- A statement on a version comes after a read that found the member in this version. -/
def Informed (log : Log Store Operation) (_ : Store) (op : Operation) : Prop :=
  ∀ id v, op.expects = some (id, v) →
    ∃ d ∈ log, ∃ r, d.before.findMember id = some r ∧ r.updatedAt = v

def Operation.Unversioned (op : Operation) : Prop := op.expects = none

theorem informed_of_unversioned (log : Log Store Operation) (s : Store) (op : Operation)
    (h : op.Unversioned) : Informed log s op := by
  intro id v hexpects
  rw [h] at hexpects
  cases hexpects

theorem obeys_unversioned {p : Members α} {log : Log Store Operation}
    (h : p.Only Operation.Unversioned) : p.Obeys Informed (fun _ _ => True) log :=
  h.obeys informed_of_unversioned (fun _ _ _ _ => trivial) fun _ _ _ => trivial

theorem obeys_unversioned_bind {p : Members α} {f : α → Members β} {log : Log Store Operation}
    (h : p.Only Operation.Unversioned)
    (hf : ∀ log' a, log ⊆ log' → (f a).Obeys Informed (fun _ _ => True) log') :
    (p >>= f).Obeys Informed (fun _ _ => True) log :=
  h.obeys_bind informed_of_unversioned (fun log' a hgrown _ => hf log' a hgrown.subset)
    fun _ _ _ => trivial

@[simp] theorem unversioned_look (answer : Store → α) :
    (look answer).Only Operation.Unversioned := only_query.mpr rfl

@[simp] theorem unversioned_generateId : generateId.Only Operation.Unversioned :=
  only_query.mpr rfl

@[simp] theorem unversioned_commit {op : Operation} {batch : StoreBatch α} :
    (commit op batch).Only Operation.Unversioned ↔ op.expects = none := by
  simp [commit, Operation.Unversioned]

@[simp] theorem unversioned_getOrganization (id : Id) :
    (getOrganization id).Only Operation.Unversioned := by
  simp [getOrganization]

@[simp] theorem unversioned_validateOrganizationRoleKeys (organizationId : Id)
    (roles : List String) :
    (validateOrganizationRoleKeys organizationId roles).Only Operation.Unversioned := by
  simp [validateOrganizationRoleKeys]

@[simp] theorem unversioned_requireMember (id : Id) :
    (requireMember id).Only Operation.Unversioned := by
  simp [requireMember]

@[simp] theorem unversioned_rejectLastOwnerMutation (m : MemberRow) :
    (rejectLastOwnerMutation m).Only Operation.Unversioned := by
  simp [rejectLastOwnerMutation]

@[simp] theorem unversioned_authorizationAudit (action : String)
    (organizationId controllerUserId : Id)
    (memberId : Option Id) (previousRoles roles : List String) (occurredAt : ℕ) :
    (authorizationAudit action organizationId controllerUserId memberId previousRoles roles
      occurredAt).Only Operation.Unversioned := by
  simp [authorizationAudit]

/-- The read of a member is in the log of what goes on from it. -/
theorem obeys_requireMemberForOrganization_bind {id organizationId : Id} {f : MemberRow → Members β}
    {log : Log Store Operation}
    (hf : ∀ log' m, (∃ d ∈ log', d.before.findMember id = some m) →
      (f m).Obeys Informed (fun _ _ => True) log') :
    (requireMemberForOrganization id organizationId >>= f).Obeys Informed
      (fun _ _ => True) log := by
  rw [requireMemberForOrganization, requireMember]
  simp only [bind_assoc]
  intro s
  refine ⟨informed_of_unversioned _ _ _ rfl, ?_⟩
  refine obeys_orThrow_bind (fun m hm => ?_) fun _ => trivial
  refine obeys_require_bind (fun _ => ?_) fun _ => trivial
  exact hf _ m ⟨_, List.mem_cons_self, hm⟩

/-- A statement that asks for the version of a member that was read. -/
theorem obeys_commit_bind {id : Id} {m : MemberRow} {op : Operation} {batch : StoreBatch α}
    {f : α → Members β} {log : Log Store Operation}
    (hread : ∃ d ∈ log, d.before.findMember id = some m)
    (hexpects : op.expects = some (id, m.updatedAt))
    (hf : ∀ a, (f a).Only Operation.Unversioned) :
    (commit op batch >>= f).Obeys Informed (fun _ _ => True) log := by
  intro s
  obtain ⟨d, hd, hfound⟩ := hread
  constructor
  · intro id' v hexpects'
    rw [hexpects] at hexpects'
    cases hexpects'
    exact ⟨d, hd, m, hfound, rfl⟩
  · exact obeys_ofExcept_bind (fun _ _ => trivial) fun a _ => obeys_unversioned (hf a)

/-- What follows the checks of new roles. -/
theorem obeys_replacement {organizationId memberId actorUserId : Id} {roles : List String}
    {keys : List RoleKey} {target : MemberRow} {log : Log Store Operation}
    (hread : ∃ d ∈ log, d.before.findMember memberId = some target) :
    (do
      let now ← look (·.now)
      let audit ← authorizationAudit "organization.member.roles-replaced" organizationId actorUserId
        (some memberId) target.roles roles now
      let updated ← commit
        (.replaceMemberRoles organizationId memberId keys target.updatedAt audit)
        (Repository.replaceMemberRoles organizationId memberId keys target.updatedAt audit)
      require (updated = true)
        (preconditionFailed "The Organization member changed after it was read.") :
        Members Unit).Obeys Informed (fun _ _ => True) log := by
  refine obeys_unversioned_bind (unversioned_look _) fun log₁ now h₁ => ?_
  refine obeys_unversioned_bind (unversioned_authorizationAudit ..) fun log₂ audit h₂ => ?_
  obtain ⟨d, hd, hfound⟩ := hread
  exact obeys_commit_bind ⟨d, h₂ (h₁ hd), hfound⟩ rfl fun _ => by simp

theorem program_contract (c : Call) : c.program.Obeys Informed (fun _ _ => True) [] := by
  cases c with
  | createOrganization slug ownerUserId =>
    refine obeys_unversioned ?_
    simp [Call.program, createOrganization, Operation.expects]
  | createRole organizationId key actorUserId =>
    refine obeys_unversioned ?_
    simp [Call.program, createRole, Operation.expects]
  | addMember organizationId userId roles title =>
    refine obeys_unversioned ?_
    simp [Call.program, addMember, Operation.expects]
  | updateMember organizationId memberId title =>
    refine obeys_requireMemberForOrganization_bind fun log _ _ => obeys_unversioned ?_
    simp [Operation.expects]
  | replaceMemberRoles organizationId memberId roles actorUserId =>
    refine obeys_requireMemberForOrganization_bind fun log target hread => ?_
    refine obeys_unversioned_bind (unversioned_validateOrganizationRoleKeys _ _)
      fun log₁ keys h₁ => ?_
    obtain ⟨d, hd, hfound⟩ := hread
    dsimp only
    split
    · refine obeys_unversioned_bind (unversioned_rejectLastOwnerMutation target) fun log₂ _ h₂ => ?_
      exact obeys_replacement ⟨d, h₂ (h₁ hd), hfound⟩
    · exact obeys_replacement ⟨d, h₁ hd, hfound⟩
  | removeMember organizationId memberId actorUserId =>
    refine obeys_requireMemberForOrganization_bind fun log member hread => ?_
    refine obeys_unversioned_bind (unversioned_look _) fun log₁ now h₁ => ?_
    refine obeys_unversioned_bind (unversioned_authorizationAudit ..) fun log₂ audit h₂ => ?_
    refine obeys_unversioned_bind (unversioned_look _) fun log₃ now' h₃ => ?_
    obtain ⟨d, hd, hfound⟩ := hread
    exact obeys_commit_bind ⟨d, h₃ (h₂ (h₁ hd)), hfound⟩ rfl fun _ => by simp
  | elapse milliseconds => exact obeys_unversioned (only_query.mpr rfl)
  | setClock now => exact obeys_unversioned (only_query.mpr rfl)

end Contract

/-- Changes of members in runs whose versions are new are decided on the rows that they replace. -/
theorem members_guarded {pool : MembershipPool}
    (h : Reachable Call.program Store.UniqueMembers StampsNew pool) : MembersGuarded pool := by
  have hunique : ∀ pool, Reachable Call.program Store.UniqueMembers StampsNew pool →
      pool.store.UniqueMembers := by
    intro pool hpool
    exact hpool.invariant (I := Store.UniqueMembers) (fun _ hs => hs)
      (fun op s hs => (stampedMembers_apply op s).nodup hs) _ List.mem_cons_self
  refine h.guarded ?_ program_contract ?_
  · intro pool i t op hpool hm hpending id r hafter hbefore
    have hstamp :=
      (stampedMembers_apply op pool.store).of_lookup (hunique pool hpool) hafter hbefore
    exact hm i t op rfl hpending id r.updatedAt hstamp
  · intro pool i t op hpool hm hpending id v hexpects
    refine ⟨fun hsucceeds => ?_, unchanged_of_not_succeeds hexpects⟩
    refine replaces_of_succeeds (hunique pool hpool) hexpects (fun now hstamps r hr => ?_) hsucceeds
    exact hm i t op rfl hpending id now hstamps pool.store List.mem_cons_self r hr

end FlareAuth.Membership
