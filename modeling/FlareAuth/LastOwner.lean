import FlareAuth.OrganizationMembers

/-!
# The last owner

The LIKE test of the guards agrees with the roles that are read back, because
every stored text is a serialized list of role keys. An Organization that has an
owner therefore keeps one.
-/

namespace FlareAuth.Membership

open Concurrent Procedure Relational

section RoleTexts

/-- What the characters of a role key are not. -/
structure Plain (c : Char) : Prop where
  comma : c ≠ ','
  lower : c.toLower = c
  space : Text.isSpace c = false

theorem plain_of_isKeyCharacter {c : Char} (h : isKeyCharacter c = true) : Plain c := by
  have hrange : (97 ≤ c.toNat ∧ c.toNat ≤ 122) ∨ (48 ≤ c.toNat ∧ c.toNat ≤ 57) := by
    unfold isKeyCharacter Char.isLower at h
    simpa [Char.isDigit, UInt32.le_iff_toNat_le] using h
  refine ⟨?_, ?_, ?_⟩
  · rintro rfl
    revert hrange
    decide
  · unfold Char.toLower
    rw [dif_neg]
    rintro ⟨hlow, hhigh⟩
    rw [ge_iff_le, UInt32.le_iff_toNat_le] at hlow
    rw [UInt32.le_iff_toNat_le] at hhigh
    change 65 ≤ c.toNat at hlow
    change c.toNat ≤ 90 at hhigh
    omega
  · simp only [Text.isSpace, List.contains_eq_mem, List.mem_cons, List.not_mem_nil, or_false,
      Bool.or_eq_false_iff, decide_eq_false_iff_not, Bool.and_eq_false_iff]
    omega

theorem plain_of_isRoleKeyFrom {start : Bool} {cs : List Char}
    (h : isRoleKeyFrom start cs = true) : ∀ c ∈ cs, Plain c := by
  induction cs generalizing start with
  | nil => simp
  | cons c cs ih =>
    rw [isRoleKeyFrom] at h
    by_cases hc : isKeyCharacter c = true
    · rw [if_pos hc] at h
      exact List.forall_mem_cons.mpr ⟨plain_of_isKeyCharacter hc, ih h⟩
    · rw [if_neg hc] at h
      simp only [Bool.and_eq_true, Bool.or_eq_true, beq_iff_eq] at h
      refine List.forall_mem_cons.mpr ⟨?_, ih h.2⟩
      rcases h.1.1 with rfl | rfl
      · exact ⟨by decide, by decide, by decide⟩
      · exact ⟨by decide, by decide, by decide⟩

theorem percent_not_mem {start : Bool} {cs : List Char} (h : isRoleKeyFrom start cs = true) :
    '%' ∉ cs := by
  induction cs generalizing start with
  | nil => exact List.not_mem_nil
  | cons c cs ih =>
    rw [isRoleKeyFrom] at h
    rw [List.mem_cons, not_or]
    by_cases hc : isKeyCharacter c = true
    · rw [if_pos hc] at h
      refine ⟨?_, ih h⟩
      rintro rfl
      revert hc
      decide
    · rw [if_neg hc] at h
      simp only [Bool.and_eq_true, Bool.or_eq_true, beq_iff_eq] at h
      refine ⟨?_, ih h.2⟩
      rintro rfl
      revert h
      simp

theorem RoleKey.plain (key : RoleKey) : ∀ c ∈ key.text.toList, Plain c := by
  have hvalid := key.valid
  rw [isRoleKey, Bool.and_eq_true] at hvalid
  exact plain_of_isRoleKeyFrom hvalid.2

theorem RoleKey.ne_nil (key : RoleKey) : key.text.toList ≠ [] := by
  intro hnil
  have hvalid := key.valid
  rw [isRoleKey, hnil] at hvalid
  cases hvalid

variable {keys : List RoleKey}

/-- The character lists that a serialized text joins. -/
def items (keys : List RoleKey) : List (List Char) :=
  (Text.sort (Text.unique (keys.map (·.text)))).map String.toList

theorem mem_items {item : List Char} :
    item ∈ items keys ↔ ∃ key ∈ keys, key.text.toList = item := by
  simp [items]

theorem toList_serializeRoles :
    (serializeRoles (keys.map (·.text))).toList = [','].intercalate (items keys) := by
  simp [serializeRoles, items]

theorem mem_items_of_text {name : String} :
    name.toList ∈ items keys ↔ name ∈ keys.map (·.text) := by
  rw [mem_items, List.mem_map]
  constructor
  · rintro ⟨key, hkey, heq⟩
    exact ⟨key, hkey, String.toList_injective heq⟩
  · rintro ⟨key, hkey, rfl⟩
    exact ⟨key, hkey, rfl⟩

theorem items_comma : ∀ item ∈ items keys, ',' ∉ item := by
  intro item hitem hcomma
  obtain ⟨key, _, rfl⟩ := mem_items.mp hitem
  exact (key.plain ',' hcomma).comma rfl

theorem items_trim : ∀ item ∈ items keys, Text.trim item = item := by
  intro item hitem
  obtain ⟨key, _, rfl⟩ := mem_items.mp hitem
  exact Text.trim_eq_self fun c hc => (key.plain c hc).space

/-- Reading a serialized text back gives the keys that were written. -/
theorem mem_deserializeRoles {name : String} (hname : name ≠ "") :
    name ∈ deserializeRoles (serializeRoles (keys.map (·.text))) ↔ name ∈ keys.map (·.text) := by
  have hsplit : ∀ item, item ≠ [] →
      (item ∈ ([','].intercalate (items keys)).splitOn ',' ↔ item ∈ items keys) := by
    intro item hne
    by_cases hnil : items keys = []
    · simp [hnil, hne]
    · rw [List.splitOn_intercalate ',' items_comma hnil]
  have hne : name.toList ≠ [] := by simpa using hname
  simp only [deserializeRoles, Text.mem_sort, Text.mem_unique, List.mem_filter, List.mem_map,
    decide_eq_true_eq, toList_serializeRoles]
  constructor
  · rintro ⟨⟨item, hitem, rfl⟩, hne'⟩
    by_cases hempty : item = []
    · subst hempty
      exact absurd rfl hne'
    · have hmem := (hsplit item hempty).mp hitem
      rw [items_trim item hmem] at hne' ⊢
      have htext : (String.ofList item).toList ∈ items keys ↔
          String.ofList item ∈ keys.map (·.text) :=
        mem_items_of_text
      rw [String.toList_ofList] at htext
      simpa using htext.mp hmem
  · intro hmem
    have hitem := mem_items_of_text.mpr (by simpa using hmem)
    refine ⟨⟨name.toList, (hsplit _ hne).mpr hitem, ?_⟩, hname⟩
    rw [items_trim _ hitem, String.ofList_toList]

/-- The LIKE test finds the owner role of a serialized text. -/
theorem like_serializeRoles :
    Text.like (Text.namePattern "owner".toList)
      (',' :: ((serializeRoles (keys.map (·.text))).toList ++ [','])) = true ↔
      "owner" ∈ keys.map (·.text) := by
  rw [toList_serializeRoles, ← mem_items_of_text]
  by_cases hnil : items keys = []
  · rw [hnil]
    decide
  · have hlower : ∀ item ∈ items keys, ∀ c ∈ item, c.toLower = c := by
      intro item hitem c hc
      obtain ⟨key, _, rfl⟩ := mem_items.mp hitem
      exact (key.plain c hc).lower
    rw [← Text.fenced_eq hnil]
    exact Text.like_fenced items_comma hlower (by simp)

end RoleTexts

/-- The role text of a member is a serialized list of role keys. -/
def MemberRow.WellFormed (m : MemberRow) : Prop :=
  ∃ keys : List RoleKey, m.role = serializeRoles (keys.map (·.text))

theorem MemberRow.WellFormed.owner_iff {m : MemberRow} (h : m.WellFormed) :
    m.hasRole "owner" = true ↔ "owner" ∈ m.roles := by
  obtain ⟨keys, hkeys⟩ := h
  rw [MemberRow.hasRole, MemberRow.roles, hkeys, like_serializeRoles,
    mem_deserializeRoles (by decide)]

def Store.RolesWellFormed (s : Store) : Prop := ∀ m ∈ s.members, m.WellFormed

def Store.HasOwner (s : Store) (organizationId : Id) : Prop :=
  ∃ m ∈ s.members, m.organizationId = organizationId ∧ "owner" ∈ m.roles

/-- What one step keeps: well-formed role texts, and with them an owner wherever there is one. -/
def Store.KeepsOwners (s t : Store) : Prop :=
  s.RolesWellFormed → t.RolesWellFormed ∧ ∀ organizationId, s.HasOwner organizationId →
    t.HasOwner organizationId

namespace Store.KeepsOwners

theorem refl (s : Store) : s.KeepsOwners s := fun h => ⟨h, fun _ howner => howner⟩

theorem trans {s t u : Store} (h : s.KeepsOwners t) (h' : t.KeepsOwners u) : s.KeepsOwners u := by
  intro hs
  obtain ⟨ht, hst⟩ := h hs
  obtain ⟨hu, htu⟩ := h' ht
  exact ⟨hu, fun organizationId howner => htu organizationId (hst organizationId howner)⟩

theorem of_members {s t : Store} (h : t.members = s.members) : s.KeepsOwners t := by
  intro hs
  unfold RolesWellFormed HasOwner
  rw [h]
  exact ⟨hs, fun _ howner => howner⟩

end Store.KeepsOwners

namespace Repository

variable {s : Store} {organizationId memberId : Id}

/-- Where the guard lets an owner go, another owner stays. -/
theorem other_owner (hs : s.RolesWellFormed) {m : MemberRow} (hm : m ∈ s.members)
    (howner : "owner" ∈ m.roles) (hguard : s.lastOwnerGuard organizationId memberId m = true) :
    ∃ other ∈ s.members, other.organizationId = organizationId ∧ other.id ≠ memberId ∧
      "owner" ∈ other.roles := by
  have hlike : m.hasRole "owner" = true := (hs m hm).owner_iff.mpr howner
  simp only [Store.lastOwnerGuard, hlike, Bool.not_true, Bool.false_or, List.any_eq_true,
    Bool.and_eq_true, beq_iff_eq, bne_iff_ne] at hguard
  obtain ⟨other, hother, ⟨horganization, hne⟩, hrole⟩ := hguard
  exact ⟨other, hother, horganization, hne, (hs other hother).owner_iff.mp hrole⟩

theorem keepsOwners_insertMember (m : MemberRow) (h : m.WellFormed) :
    Batch.Within Store.KeepsOwners (insertMember m) := by
  intro s x t hbatch hs
  unfold insertMember at hbatch
  split at hbatch
  · cases hbatch
    constructor
    · intro m' hm'
      rcases List.mem_append.mp hm' with hm' | hm'
      · exact hs m' hm'
      · obtain rfl := List.mem_singleton.mp hm'
        exact h
    · rintro organizationId ⟨m', hm', howner⟩
      exact ⟨m', List.mem_append_left _ hm', howner⟩
  · cases hbatch

theorem keepsOwners_createOrganization (organization : Organization) (ownerId userId : Id)
    (roles : List RoleKey) (now : ℕ) :
    Batch.Within Store.KeepsOwners (createOrganization organization ownerId userId roles now) := by
  refine .bind (fun _ _ _ => .trans) ?_ fun _ => keepsOwners_insertMember _ ⟨roles, rfl⟩
  intro s x t hbatch
  unfold insertOrganization at hbatch
  split at hbatch
  · cases hbatch
    exact .of_members rfl
  · cases hbatch

theorem keepsOwners_updateMember (id : Id) (title : Option (Option String)) (now : ℕ) :
    Batch.Within Store.KeepsOwners (updateMember id title now) := by
  refine .modify fun s hs => ⟨fun m hm => ?_, ?_⟩
  · obtain ⟨m₀, hm₀, rfl⟩ := mem_updateWhere.mp hm
    split
    · exact hs m₀ hm₀
    · exact hs m₀ hm₀
  · rintro organizationId ⟨m, hm, horganization, howner⟩
    refine ⟨_, mem_updateWhere.mpr ⟨m, hm, rfl⟩, ?_⟩
    split
    · exact ⟨horganization, howner⟩
    · exact ⟨horganization, howner⟩

/-- The update of a member's roles keeps an owner: the member, if the new roles make one, or
the other owner that the guard found. -/
theorem keepsOwners_setRoles (s : Store) (organizationId memberId : Id) (roles : List RoleKey)
    (expectedUpdatedAt updatedAt : ℕ) : s.KeepsOwners { s with
      members := updateWhere (rolesCondition s organizationId memberId roles expectedUpdatedAt)
        (fun m => { m with role := serializeRoles (roles.map (·.text)), updatedAt := updatedAt })
        s.members } := by
  intro hs
  constructor
  · intro m hm
    obtain ⟨m₀, hm₀, rfl⟩ := mem_updateWhere.mp hm
    split
    · exact ⟨roles, rfl⟩
    · exact hs m₀ hm₀
  · rintro organizationId' ⟨m, hm, horganization, howner⟩
    have hstays : ∀ m ∈ s.members,
        rolesCondition s organizationId memberId roles expectedUpdatedAt m = false →
        m ∈ updateWhere (rolesCondition s organizationId memberId roles expectedUpdatedAt)
          (fun m => { m with role := serializeRoles (roles.map (·.text)), updatedAt := updatedAt })
          s.members :=
      fun m hm hcondition => mem_updateWhere_of_not hm (by simp [hcondition])
    cases hcondition : rolesCondition s organizationId memberId roles expectedUpdatedAt m with
    | false => exact ⟨m, hstays m hm hcondition, horganization, howner⟩
    | true =>
      have hselected := hcondition
      simp only [rolesCondition, Bool.and_eq_true, Bool.or_eq_true, beq_iff_eq] at hcondition
      obtain ⟨⟨⟨hid, horganization'⟩, _⟩, hroles | hguard⟩ := hcondition
      · refine ⟨_, mem_updateWhere.mpr ⟨m, hm, rfl⟩, ?_⟩
        rw [if_pos hselected]
        refine ⟨horganization, ?_⟩
        rw [MemberRow.roles, mem_deserializeRoles (by decide)]
        simpa using hroles
      · obtain ⟨other, hother, hsame, hne, hotherOwner⟩ := other_owner hs hm howner hguard
        refine ⟨other, hstays other hother ?_, ?_, hotherOwner⟩
        · simp [rolesCondition, hne]
        · rw [hsame, ← horganization', horganization]

theorem keepsOwners_replaceMemberRoles (organizationId memberId : Id) (roles : List RoleKey)
    (expectedUpdatedAt : ℕ) (audit : Audit) : Batch.Within Store.KeepsOwners
      (replaceMemberRoles organizationId memberId roles expectedUpdatedAt audit) := by
  have htrans : ∀ s t u : Store, s.KeepsOwners t → t.KeepsOwners u → s.KeepsOwners u :=
    fun _ _ _ => .trans
  refine .bind htrans (.read .refl _) fun found => .bind htrans (.modify fun s => ?_) fun _ =>
    .bind htrans (.modify fun s => ?_) fun _ => .pure .refl _
  · exact .of_members rfl
  · exact keepsOwners_setRoles s organizationId memberId roles expectedUpdatedAt audit.occurredAt

/-- The deletion of a member keeps an owner: the one that the guard found. -/
theorem keepsOwners_deleteMember (s : Store) (organizationId memberId : Id)
    (expectedUpdatedAt : ℕ) : s.KeepsOwners { s with
      members := s.members.filter fun m =>
        !removalCondition s organizationId memberId expectedUpdatedAt m } := by
  intro hs
  constructor
  · intro m hm
    exact hs m (List.mem_filter.mp hm).1
  · rintro organizationId' ⟨m, hm, horganization, howner⟩
    cases hcondition : removalCondition s organizationId memberId expectedUpdatedAt m with
    | false => exact ⟨m, List.mem_filter.mpr ⟨hm, by simp [hcondition]⟩, horganization, howner⟩
    | true =>
      simp only [removalCondition, Bool.and_eq_true, beq_iff_eq] at hcondition
      obtain ⟨⟨⟨hid, horganization'⟩, _⟩, hguard⟩ := hcondition
      obtain ⟨other, hother, hsame, hne, hotherOwner⟩ := other_owner hs hm howner hguard
      refine ⟨other, List.mem_filter.mpr ⟨hother, ?_⟩, ?_, hotherOwner⟩
      · simp [removalCondition, hne]
      · rw [hsame, ← horganization', horganization]

theorem keepsOwners_removeMember (organizationId memberId : Id) (expectedUpdatedAt : ℕ)
    (audit : Audit) (now : ℕ) : Batch.Within Store.KeepsOwners
      (removeMember organizationId memberId expectedUpdatedAt audit now) := by
  have htrans : ∀ s t u : Store, s.KeepsOwners t → t.KeepsOwners u → s.KeepsOwners u :=
    fun _ _ _ => .trans
  refine .bind htrans (.read .refl _) fun found => ?_
  refine .bind htrans (.modify fun s => .of_members rfl) fun _ => ?_
  refine .bind htrans (.modify fun s => .of_members rfl) fun _ => ?_
  refine .bind htrans (.modify fun s => .of_members rfl) fun _ => ?_
  refine .bind htrans (.modify fun s => .of_members rfl) fun _ => ?_
  refine .bind htrans (.modify fun s => ?_) fun _ => .pure .refl _
  exact keepsOwners_deleteMember s organizationId memberId expectedUpdatedAt

end Repository

theorem keepsOwners_perform (op : Operation) (s : Store) : s.KeepsOwners (op.perform s) := by
  cases op with
  | read => exact .refl s
  | generateId | elapse | setClock => exact .of_members rfl
  | createOrganization organization ownerId userId roles now =>
    exact (Repository.keepsOwners_createOrganization organization ownerId userId roles now).settle
      .refl s
  | createOrganizationRole organizationId key audit =>
    rw [Operation.perform, Batch.settle, Repository.createOrganizationRole]
    by_cases h : (organizationId, key) ∈ s.organizationRoles
    · rw [if_pos h]
      exact .refl s
    · rw [if_neg h]
      exact .of_members rfl
  | addMember id organizationId userId roles title now =>
    exact (Repository.keepsOwners_insertMember _ ⟨roles, rfl⟩).settle .refl s
  | updateMember id title now =>
    exact (Repository.keepsOwners_updateMember id title now).settle .refl s
  | replaceMemberRoles organizationId memberId roles expectedUpdatedAt audit =>
    exact (Repository.keepsOwners_replaceMemberRoles organizationId memberId roles expectedUpdatedAt
      audit).settle .refl s
  | removeMember organizationId memberId expectedUpdatedAt audit now =>
    exact (Repository.keepsOwners_removeMember organizationId memberId expectedUpdatedAt audit
      now).settle .refl s

theorem keepsOwners_evolution : Evolution Operation Store.KeepsOwners where
  refl := .refl
  trans _ _ _ := .trans
  step := keepsOwners_perform

theorem rolesWellFormed_of_reachable {pool : MembershipPool} (h : MembershipReachable pool) :
    ∀ s ∈ pool.history, s.RolesWellFormed :=
  h.invariant (fun s hs m hm => by rw [hs.members] at hm; cases hm)
    fun op s hs => (keepsOwners_perform op s hs).1

/-- Once an Organization has had an owner, it has one. -/
theorem organization_keeps_owner {pool : MembershipPool} (h : MembershipReachable pool) :
    ∀ s ∈ pool.history, ∀ organizationId, s.HasOwner organizationId →
      pool.store.HasOwner organizationId := by
  intro s hs organizationId howner
  have hwellFormed := rolesWellFormed_of_reachable h s hs
  exact (h.evolves_history keepsOwners_evolution s hs hwellFormed).2 organizationId howner

def sampleStore : Store := ⟨0, 0, ["u", "v"], [], [], [], [], [], [], [], [], []⟩

/-- Two owners of the Organization `id-0`, and requests that demote one and remove the other,
both past their reads. -/
def rivalMoves : List (Move Call) :=
  .start (.createOrganization "acme" "u") :: List.replicate 4 (.resume 0) ++
    .start (.addMember "id-0" "v" ["owner"] none) :: List.replicate 5 (.resume 1) ++
    .start (.replaceMemberRoles "id-0" "id-1" ["member"] "u") :: List.replicate 5 (.resume 2) ++
    .start (.removeMember "id-0" "id-2" "u") :: List.replicate 4 (.resume 3) ++
    [.resume 2, .resume 3]

set_option maxRecDepth 10000 in
/-- The demotion goes through, the removal of the other owner is refused. -/
theorem organization_keeps_owner_sample : ∃ pool : MembershipPool, MembershipReachable pool ∧
    pool.store.members.length = 2 ∧ pool.store.HasOwner "id-0" := by
  have hrun : ((Pool.initial sampleStore).run Call.program (fun _ _ => true) rivalMoves).any
      (fun pool => decide (pool.store.members.length = 2) && pool.history.any fun s =>
        s.members.any fun m => m.organizationId == "id-0" && m.roles.contains "owner") = true := by
    decide +kernel
  obtain ⟨pool, hpool, hcheck⟩ := (Option.any_eq_true _ _).mp hrun
  have hreach : MembershipReachable pool :=
    Reachable.of_run (fun _ _ _ => trivial) (.initial ⟨rfl, rfl, rfl⟩) hpool
  simp only [Bool.and_eq_true, decide_eq_true_eq, List.any_eq_true, beq_iff_eq,
    List.contains_eq_mem] at hcheck
  obtain ⟨htwo, s, hs, m, hm, horganization, howner⟩ := hcheck
  exact ⟨pool, hreach, htwo,
    organization_keeps_owner hreach s hs "id-0" ⟨m, hm, horganization, howner⟩⟩

end FlareAuth.Membership
