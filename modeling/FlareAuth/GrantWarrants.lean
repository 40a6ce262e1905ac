import FlareAuth.AccountScopes
import FlareAuth.CanonicalJson
import FlareAuth.PermissionChecks
import FlareAuth.ScopeSightings

/-!
# What a controller has to give

A permission of an Agent is worth what its controller was seen to hold when it was granted: a
Context of the controller, a scope that the controller holds there, and for an external resource an
account that grants the scope. The checks of a grant are lookups at several moments, and each of
them is kept here with the state in which it was made.
-/

namespace FlareAuth

open Concurrent Procedure Access

section Warrants

variable [Locale] (seen : List Store)

structure Belongs (userId organizationId : Id) : Prop where
  member : ∃ s ∈ seen, ∃ m ∈ s.directory.listUserMemberships userId,
    m.organizationId = organizationId
  enabled : ∃ s ∈ seen, ∃ o, s.directory.findOrganization organizationId = some o ∧
    o.disabled = false

structure Offered (resource : ApiResource) (ownerUserId : Id) : Prop where
  available : resource.availableToAgents = true
  visible : resource.activePublic = true ∨ ∃ organizationId,
    Belongs seen ownerUserId organizationId ∧
    resource.activeVisibleToOrganization organizationId = true

/-- The user holds the scope, no matter in which tenant. At a private resource only memberships of
its owner count, and there must be one. -/
structure HeldAnywhere (userId : Id) (resource : ApiResource) (now : ℕ)
    (scope : String) : Prop where
  declared : scope ∈ resource.declaredScopes
  admitted : resource.visibility = .privateResource → ∃ s ∈ seen,
    ∃ m ∈ s.directory.listUserMemberships userId, m.organizationId = resource.ownerOrganizationId
  given : scope ∈ resource.automaticScopes ∨
    (∃ s ∈ seen, ∃ e ∈ s.listActiveUserScopeEntitlements userId resource.id now, e.scope = scope) ∨
    ∃ s ∈ seen, ∃ m ∈ s.directory.listUserMemberships userId,
      (resource.visibility = .privateResource → m.organizationId = resource.ownerOrganizationId) ∧
      ∃ s' ∈ seen, ∃ found, s'.directory.findResource resource.id = some found ∧
        ∃ s'' ∈ seen, s''.directory.MembershipGrants m found scope

/-- The detail names the user, or an enabled Organization of the user. -/
def AuthorityContext (userId : Id) (detail : AuthorizationDetail) : Prop :=
  (detail.stringField "authority" = some "user" ∧ detail.stringField "id" = some userId) ∨
    ∃ organizationId, detail.stringField "authority" = some "organization" ∧
      detail.stringField "id" = some organizationId ∧ Belongs seen userId organizationId

/-- The controller holds the scope in the Context alone that the detail names. -/
def AuthorityHeld (controllerUserId : Id) (resource : ApiResource) (detail : AuthorizationDetail)
    (scope : String) : Prop :=
  scope ∈ resource.agentScopes ∧ ∃ now ∈ seen.map (·.now),
    (∃ organizationId, detail.stringField "authority" = some "organization" ∧
      detail.stringField "id" = some organizationId ∧
      (resource.isRealmroot = true → ∃ s ∈ seen,
        ∃ m ∈ s.directory.listUserMemberships controllerUserId, m.organizationId = organizationId) ∧
      UserHeld controllerUserId resource (some organizationId) now seen scope) ∨
    (detail.stringField "authority" = some "user" ∧
      detail.stringField "id" = some controllerUserId ∧
      (UserHeld controllerUserId resource none now seen scope ∨ (resource.isRealmroot = true ∧
        scope ∈ ["agents:read", "agents:write", "audit-events:read"])))

def Shown (item : CatalogItem) : Prop :=
  ∃ s ∈ seen, ∃ endpoint page catalog, s.world.catalogPage endpoint page = .ok catalog ∧
    item ∈ catalog.items

/-- The item is one of the provider's, or stands for a detail of the connection. -/
def Catalogued (connection : ResourceConnection) (item : CatalogItem) : Prop :=
  Shown seen item ∨
    (item.grantedScopes = none ∧ item.authorizationDetail ∈ connection.authorizationDetails)

/-- The account grants the scope in the details: by what its catalog says of them, by the scopes of
the connection where there are no details, or by the provider's item of the only one. -/
def AccountGrants (connection : ResourceConnection) (details : List AuthorizationDetail)
    (scope : String) : Prop :=
  (details ≠ [] ∧ ∃ items, (∀ item ∈ items, Catalogued seen connection item) ∧
    scope ∈ accountScopes connection items details) ∨
  (details = [] ∧ scope ∈ connection.grantedScopes) ∨
  ∃ item granted, Shown seen item ∧ details = [item.authorizationDetail] ∧
    item.grantedScopes = some granted ∧ scope ∈ granted

/-- The account of the owner covers the details, and it and the controller have the scope. -/
structure AccountCovers (controllerUserId ownerUserId : Id) (resource : ApiResource)
    (connection : ResourceConnection) (details : List AuthorizationDetail) (scope : String) :
    Prop where
  stored : ∃ s ∈ seen, s.directory.findConnection connection.id = some connection
  owner : connection.owner = .user ownerUserId
  account : connection.resourceId = resource.id
  active : connection.status = .active
  selection : assertAuthorizationDetailsSelection resource (some connection) details = .ok ()
  covered : isAuthorizationDetailsSubset details connection.authorizationDetails = true
  held : ∃ now ∈ seen.map (·.now), HeldAnywhere seen controllerUserId resource now scope
  granted : AccountGrants seen connection details scope

/-- The scope is the controller's to give in the Context, for an Agent of the owner. -/
inductive Gives (controllerUserId ownerUserId : Id) (resource : ApiResource)
    (details : List AuthorizationDetail) (scope : String) : Option Id → Prop
  | native {detail : AuthorizationDetail} (kind : resource.requiresAccountConnection = false)
      (single : details = [detail]) (context : AuthorityContext seen ownerUserId detail)
      (held : AuthorityHeld seen controllerUserId resource detail scope) :
      Gives controllerUserId ownerUserId resource details scope none
  | external {connection : ResourceConnection} (kind : resource.requiresAccountConnection = true)
      (covers : AccountCovers seen controllerUserId ownerUserId resource connection details scope) :
      Gives controllerUserId ownerUserId resource details scope (some connection.id)

/-- What the checks of a grant have found of a scope for the Agent: its identity active, the
resource seen by it, and the scope the controller's to give. -/
structure TargetChecked (controllerUserId agentId : Id) (resource : ApiResource)
    (connectionId : Option Id) (details : List AuthorizationDetail) (scope : String) : Prop where
  declared : if resource.isRealmroot then scope ∈ realmrootOAuthScopes
    else scope ∈ resource.declaredScopes
  gives : ∃ s ∈ seen, ∃ identity, s.directory.findIdentity agentId = some identity ∧
    identity.status = .active ∧ Offered seen resource identity.ownerUserId ∧
    Gives seen controllerUserId identity.ownerUserId resource details scope connectionId

end Warrants

section Monotone

variable [Locale] {seen seen' : List Store} (h : seen ⊆ seen') {userId organizationId agentId : Id}
  {resource : ApiResource} {detail : AuthorizationDetail} {details : List AuthorizationDetail}
  {scope : String} {now : ℕ} {connection : ResourceConnection}

include h

omit [Locale] in
theorem Belongs.mono (hb : Belongs seen userId organizationId) :
    Belongs seen' userId organizationId := by
  obtain ⟨⟨s, hs, hmember⟩, t, ht, henabled⟩ := hb
  exact ⟨⟨s, h hs, hmember⟩, t, h ht, henabled⟩

omit [Locale] in
theorem Offered.mono (ho : Offered seen resource userId) : Offered seen' resource userId where
  available := ho.available
  visible := by
    rcases ho.visible with hpublic | ⟨organizationId, hbelongs, hvisible⟩
    · exact .inl hpublic
    · exact .inr ⟨organizationId, hbelongs.mono h, hvisible⟩

omit [Locale] in
theorem HeldAnywhere.mono (hh : HeldAnywhere seen userId resource now scope) :
    HeldAnywhere seen' userId resource now scope where
  declared := hh.declared
  admitted hprivate := by
    obtain ⟨s, hs, hmember⟩ := hh.admitted hprivate
    exact ⟨s, h hs, hmember⟩
  given := by
    rcases hh.given with hauto | ⟨s, hs, e⟩ | ⟨s, hs, m, hm, howner, s', hs', r, hr, s'', hs'', hg⟩
    · exact .inl hauto
    · exact .inr (.inl ⟨s, h hs, e⟩)
    · exact .inr (.inr ⟨s, h hs, m, hm, howner, s', h hs', r, hr, s'', h hs'', hg⟩)

omit [Locale] in
theorem AuthorityContext.mono (hc : AuthorityContext seen userId detail) :
    AuthorityContext seen' userId detail := by
  rcases hc with huser | ⟨organizationId, hauthority, hid, hbelongs⟩
  · exact .inl huser
  · exact .inr ⟨organizationId, hauthority, hid, hbelongs.mono h⟩

omit [Locale] in
theorem AuthorityHeld.mono (hh : AuthorityHeld seen userId resource detail scope) :
    AuthorityHeld seen' userId resource detail scope := by
  obtain ⟨hscope, now, hnow, hheld⟩ := hh
  refine ⟨hscope, now, List.map_subset _ h hnow, ?_⟩
  rcases hheld with ⟨organizationId, hauthority, hid, hmember, hheld⟩ | ⟨hauthority, hid, hheld⟩
  · refine .inl ⟨organizationId, hauthority, hid, fun hrealmroot => ?_, hheld.mono h⟩
    obtain ⟨s, hs, hm⟩ := hmember hrealmroot
    exact ⟨s, h hs, hm⟩
  · exact .inr ⟨hauthority, hid, hheld.imp_left fun hheld => hheld.mono h⟩

omit [Locale] in
theorem Shown.mono {item : CatalogItem} (hs : Shown seen item) : Shown seen' item := by
  obtain ⟨s, hs, hshown⟩ := hs
  exact ⟨s, h hs, hshown⟩

theorem AccountGrants.mono (hg : AccountGrants seen connection details scope) :
    AccountGrants seen' connection details scope := by
  rcases hg with ⟨hne, items, hitems, hscope⟩ | hnone | ⟨item, granted, hshown, hitem⟩
  · exact .inl ⟨hne, items, fun item hitem => (hitems item hitem).imp_left
      fun hs => hs.mono h, hscope⟩
  · exact .inr (.inl hnone)
  · exact .inr (.inr ⟨item, granted, hshown.mono h, hitem⟩)

theorem AccountCovers.mono {ownerUserId : Id}
    (hc : AccountCovers seen userId ownerUserId resource connection details scope) :
    AccountCovers seen' userId ownerUserId resource connection details scope where
  stored := by
    obtain ⟨s, hs, hfound⟩ := hc.stored
    exact ⟨s, h hs, hfound⟩
  owner := hc.owner
  account := hc.account
  active := hc.active
  selection := hc.selection
  covered := hc.covered
  held := by
    obtain ⟨now, hnow, hheld⟩ := hc.held
    exact ⟨now, List.map_subset _ h hnow, hheld.mono h⟩
  granted := hc.granted.mono h

theorem Gives.mono {ownerUserId : Id} {connectionId : Option Id}
    (hg : Gives seen userId ownerUserId resource details scope connectionId) :
    Gives seen' userId ownerUserId resource details scope connectionId := by
  cases hg with
  | native kind single context held => exact .native kind single (context.mono h) (held.mono h)
  | external kind covers => exact .external kind (covers.mono h)

theorem TargetChecked.mono {connectionId : Option Id}
    (hc : TargetChecked seen userId agentId resource connectionId details scope) :
    TargetChecked seen' userId agentId resource connectionId details scope where
  declared := hc.declared
  gives := by
    obtain ⟨s, hs, identity, hfound, hstatus, hoffered, hgives⟩ := hc.gives
    exact ⟨s, h hs, identity, hfound, hstatus, hoffered.mono h, hgives.mono h⟩

end Monotone

section Contexts

variable [Locale]

/-- A detail with the canonical text of an authority says what the authority says. -/
theorem authority_of_canonical {kind id : String} {detail : AuthorizationDetail}
    (h : canonicalJson (realmrootAuthority kind id) = canonicalJson detail) :
    detail.stringField "authority" = some kind ∧ detail.stringField "id" = some id := by
  rw [Json.canonicalJson_eq, Json.canonicalJson_eq, Json.stringify_injective.eq_iff] at h
  have hsame := Json.same_of_sorted _ _ h
  cases hsame with
  | object hfields hperm =>
    obtain ⟨⟩ | ⟨_, htype, hfields⟩ := hfields
    obtain ⟨⟩ | ⟨_, hkind, hfields⟩ := hfields
    obtain ⟨⟩ | ⟨_, hid, hfields⟩ := hfields
    cases hfields
    cases htype
    cases hkind
    cases hid
    have hnodup : ([("type", Json.string "realmroot_authority"), ("authority", .string kind),
        ("id", .string id)].map (·.1)).Nodup := by simp
    have hkeys := (hperm.map (·.1)).nodup_iff.mp hnodup
    have hfield : ∀ key value, (key, value) ∈ [("type", Json.string "realmroot_authority"),
        ("authority", .string kind), ("id", .string id)] → ∀ fields',
        [("type", Json.string "realmroot_authority"), ("authority", .string kind),
          ("id", .string id)].Perm fields' → (fields'.map (·.1)).Nodup →
        (Json.object fields').field key = some value := by
      intro key value hmem fields' hperm hkeys
      have hfound := Relational.lookup_of_mem hkeys (hperm.mem_iff.mp hmem)
      unfold Json.field
      exact congrArg (Option.map (·.2)) hfound
    unfold Json.stringField
    rw [hfield "authority" (.string kind) (by simp) _ hperm hkeys,
      hfield "id" (.string id) (by simp) _ hperm hkeys]
    exact ⟨rfl, rfl⟩

omit [Locale] in
/-- The Organizations that visibility and authority go by. -/
theorem sees_activeIdentityOrganizationIds (ownerUserId : Id) :
    (activeIdentityOrganizationIds ownerUserId).Sees fun ids seen =>
      ∀ id ∈ ids, Belongs seen ownerUserId id := by
  refine (sees_look _).bind fun memberships first ⟨s, hmemberships, hfirst⟩ => ?_
  refine (Sees.collect (D := fun organizationId found seen => ∃ s ∈ seen,
      found = s.directory.findOrganization organizationId) ?_ fun organizationId _ =>
        (sees_look _).mono ?_).bind fun organizations second hfound => sees_done ?_
  · rintro organizationId found seen seen' hsubset ⟨s, hs, hfound⟩
    exact ⟨s, hsubset hs, hfound⟩
  · rintro found seen ⟨s, hfound, rfl⟩
    exact ⟨s, List.mem_singleton_self s, hfound⟩
  · intro id hid
    obtain ⟨o, ho, rfl⟩ := List.mem_map.mp hid
    obtain ⟨ho, henabled⟩ := List.mem_filter.mp ho
    obtain ⟨organizationId, horganization, t, ht, hlookup⟩ :=
      hfound.exists_left (List.reduceOption_mem_iff.mp ho)
    have hkey : o.id = organizationId := Relational.key_of_lookup hlookup.symm
    obtain ⟨m, hm, rfl⟩ := List.mem_map.mp (Text.mem_unique.mp horganization)
    refine ⟨⟨s, by simp [hfirst], m, hmemberships ▸ hm, hkey.symm⟩, t, by simp [ht], o, ?_, ?_⟩
    · rw [hkey]
      exact hlookup.symm
    · simpa using henabled

omit [Locale] in
theorem sees_requireAgentResourceVisibility (resource : ApiResource) (ownerUserId : Id) :
    (requireAgentResourceVisibility resource ownerUserId).Sees fun _ seen =>
      Offered seen resource ownerUserId := by
  refine (sees_activeIdentityOrganizationIds _).bind fun ids first hids => ?_
  refine (sees_require _ _).mono fun _ seen ⟨⟨havailable, hvisible⟩, hseen⟩ => ⟨havailable, ?_⟩
  rw [ApiResource.activeVisibleToAgent, Bool.or_eq_true, List.any_eq_true] at hvisible
  rcases hvisible with hpublic | ⟨id, hid, hvisible⟩
  · exact .inl hpublic
  · exact .inr ⟨id, (hids id hid).mono (by simp), hvisible⟩

theorem sees_requireCurrentNativeAuthorityContext (ownerUserId : Id)
    (details : List AuthorizationDetail) :
    (requireCurrentNativeAuthorityContext ownerUserId details).Sees fun _ seen =>
      ∃ detail, details = [detail] ∧ AuthorityContext seen ownerUserId detail := by
  refine (sees_ofExcept _).bind fun _ _ ⟨hselection, hnone⟩ => ?_
  have hone : ∃ detail, details = [detail] := by
    have hnative := assertNativeAuthoritySelection_ok hselection
    unfold isNativeAuthoritySelection at hnative
    split at hnative
    · exact ⟨_, rfl⟩
    · cases hnative
  obtain ⟨detail, rfl⟩ := hone
  refine Sees.bind (P := fun available seen => ∀ candidate ∈ available,
    candidate = realmrootAuthority "user" ownerUserId ∨ ∃ id, Belongs seen ownerUserId id ∧
      candidate = realmrootAuthority "organization" id) ?_ fun available first havailable => ?_
  · refine (sees_activeIdentityOrganizationIds _).bind fun ids first hids => sees_done ?_
    intro candidate hcandidate
    rcases List.mem_cons.mp hcandidate with rfl | hcandidate
    · exact .inl rfl
    · obtain ⟨id, hid, rfl⟩ := List.mem_map.mp hcandidate
      exact .inr ⟨id, hids id (Text.mem_sort.mp hid), rfl⟩
  · refine (sees_require _ _).mono fun _ seen ⟨hany, _⟩ => ⟨detail, rfl, ?_⟩
    simp only [List.head?_cons, Option.any_some, List.any_eq_true] at hany
    obtain ⟨candidate, hcandidate, hexact⟩ := hany
    rw [exactAuthorizationDetails_singleton] at hexact
    rcases havailable candidate hcandidate with rfl | ⟨id, hbelongs, rfl⟩
    · exact .inl (authority_of_canonical hexact)
    · obtain ⟨hkind, hid⟩ := authority_of_canonical hexact
      exact .inr ⟨id, hkind, hid, hbelongs.mono (by simp)⟩

omit [Locale] in
theorem sees_clock : clock.Sees fun now seen => ∃ s : Store, now = s.now ∧ seen = [s] :=
  fun s => ⟨s, rfl, rfl⟩

omit [Locale] in
theorem sees_nativeAuthorityEffectiveScopes (controllerUserId : Id) (resource : ApiResource)
    (detail : AuthorizationDetail) :
    (nativeAuthorityEffectiveScopes controllerUserId resource detail).Sees fun scopes seen =>
      ∀ scope ∈ scopes, AuthorityHeld seen controllerUserId resource detail scope := by
  have hscopes : ∀ (tenant : Option Id) (own : List String),
      (do
        let now ← clock
        let scopes ← userEffectiveResourceScopes controllerUserId resource now (some tenant)
        return Text.sort ((Text.unique (own ++ scopes)).filter resource.agentScopes.contains) :
          Access (List String)).Sees fun scopes seen => ∀ scope ∈ scopes,
        scope ∈ resource.agentScopes ∧ ∃ now ∈ seen.map (·.now), scope ∈ own ∨
          UserHeld controllerUserId resource tenant now seen scope := by
    intro tenant own
    refine sees_clock.bind fun now first ⟨s, hnow, hfirst⟩ => ?_
    refine (sees_userEffectiveResourceScopes _ _ _ _).bind fun scopes second hheld => sees_done ?_
    intro scope hscope
    obtain ⟨hmem, hagent⟩ := List.mem_filter.mp (Text.mem_sort.mp hscope)
    refine ⟨List.contains_iff_mem.mp hagent, now, by simp [hfirst, hnow], ?_⟩
    rcases List.mem_append.mp (Text.mem_unique.mp hmem) with hown | hgiven
    · exact .inl hown
    · exact .inr ((hheld scope hgiven).mono (by simp))
  have horganization : ∀ organizationId, (do
      let now ← clock
      let scopes ← userEffectiveResourceScopes controllerUserId resource now
        (some (some organizationId))
      return Text.sort ((Text.unique scopes).filter resource.agentScopes.contains) :
        Access (List String)).Sees fun scopes seen => ∀ scope ∈ scopes,
      scope ∈ resource.agentScopes ∧ ∃ now ∈ seen.map (·.now),
        UserHeld controllerUserId resource (some organizationId) now seen scope := by
    intro organizationId
    refine (hscopes (some organizationId) []).mono fun scopes seen h scope hscope => ?_
    obtain ⟨hagent, now, hnow, hheld⟩ := h scope hscope
    exact ⟨hagent, now, hnow, hheld.resolve_left List.not_mem_nil⟩
  unfold nativeAuthorityEffectiveScopes
  dsimp only
  split
  · rename_i organizationId hauthority hid
    split
    · rename_i hrealmroot
      refine (sees_look _).bind fun entitled first ⟨s, hentitled, hfirst⟩ => ?_
      split
      · exact fun scope hscope => nomatch hscope
      · rename_i hmember
        refine (horganization organizationId).mono fun scopes seen h scope hscope => ?_
        obtain ⟨hagent, now, hnow, hheld⟩ := h scope hscope
        refine ⟨hagent, now, by simp_all, .inl ⟨organizationId, hauthority, hid, fun _ => ?_, ?_⟩⟩
        · rw [Bool.not_eq_true', Bool.not_eq_false, hentitled, List.any_eq_true] at hmember
          obtain ⟨m, hm, hsame⟩ := hmember
          exact ⟨s, by simp [hfirst], m, hm, of_decide_eq_true hsame⟩
        · exact hheld.mono (by simp)
    · rename_i hrealmroot
      refine (horganization organizationId).mono fun scopes seen h scope hscope => ?_
      obtain ⟨hagent, now, hnow, hheld⟩ := h scope hscope
      exact ⟨hagent, now, hnow, .inl ⟨organizationId, hauthority, hid,
        fun h => absurd h hrealmroot, hheld⟩⟩
  · rename_i id hauthority hid
    split
    · exact fun scope hscope => nomatch hscope
    · rename_i hsame
      rw [ne_eq, not_not] at hsame
      subst hsame
      refine (hscopes none _).mono fun scopes seen h scope hscope => ?_
      obtain ⟨hagent, now, hnow, hheld⟩ := h scope hscope
      refine ⟨hagent, now, hnow, .inr ⟨hauthority, hid, ?_⟩⟩
      rcases hheld with hown | hheld
      · split at hown
        · exact .inr ⟨‹_›, hown⟩
        · cases hown
      · exact .inl hheld
  · exact fun scope hscope => nomatch hscope

end Contexts

section Accounts

theorem sees_userEffectiveResourceScopes_anywhere (userId : Id) (resource : ApiResource) (now : ℕ) :
    (userEffectiveResourceScopes userId resource now none).Sees fun scopes seen =>
      ∀ scope ∈ scopes, HeldAnywhere seen userId resource now scope := by
  refine (sees_look _).bind fun memberships first ⟨s, hmemberships, hfirst⟩ => ?_
  have hvisible : ∀ m ∈ visibleMemberships resource memberships none,
      m ∈ s.directory.listUserMemberships userId ∧
        (resource.visibility = .privateResource →
          m.organizationId = resource.ownerOrganizationId) := by
    intro m hm
    unfold visibleMemberships at hm
    split at hm
    · obtain ⟨hm, howner⟩ := List.mem_filter.mp hm
      exact ⟨hmemberships ▸ hm, fun _ => of_decide_eq_true howner⟩
    · rename_i hpublic
      exact ⟨hmemberships ▸ hm, fun hprivate => absurd ⟨rfl, hprivate⟩ hpublic⟩
  dsimp only
  split
  · exact fun scope hscope => nomatch hscope
  · rename_i hadmitted
    refine (sees_ask _ _).bind fun entitlements second ⟨s', hentitlements, hsecond⟩ => ?_
    refine (Sees.collect (D := fun m scopes seen => ∀ scope ∈ scopes, ∃ s ∈ seen, ∃ found,
        s.directory.findResource resource.id = some found ∧
          ∃ s' ∈ seen, s'.directory.MembershipGrants m found scope) ?_
      fun m _ => sees_resolveOrganizationMembershipScopes m resource.id).bind
      fun inherited third hinherited => sees_done ?_
    · rintro m scopes seen seen' hsubset h scope hscope
      obtain ⟨s, hs, found, hfound, s', hs', hgrants⟩ := h scope hscope
      exact ⟨s, hsubset hs, found, hfound, s', hsubset hs', hgrants⟩
    · intro scope hscope
      rw [mem_currentRegistryScopes] at hscope
      obtain ⟨hgiven, hdeclared⟩ := hscope
      refine ⟨hdeclared, fun hprivate => ?_, ?_⟩
      · obtain ⟨m, hm⟩ := List.exists_mem_of_ne_nil _ fun hnil => hadmitted ⟨rfl, hprivate, hnil⟩
        obtain ⟨hmember, howner⟩ := hvisible m hm
        exact ⟨s, by simp [hfirst], m, hmember, howner hprivate⟩
      · rcases List.mem_append.mp hgiven with hgiven | hinherit
        · rcases List.mem_append.mp hgiven with hautomatic | hgranted
          · exact .inl hautomatic
          · obtain ⟨e, he, rfl⟩ := List.mem_map.mp hgranted
            obtain ⟨he, _⟩ := List.mem_filter.mp he
            exact .inr (.inl ⟨s', by simp [hsecond], e, hentitlements ▸ he, rfl⟩)
        · obtain ⟨scopes, hscopes, hmem⟩ := List.mem_flatten.mp hinherit
          obtain ⟨m, hm, hround⟩ := hinherited.exists_left hscopes
          obtain ⟨hmember, howner⟩ := hvisible m hm
          obtain ⟨s₁, hs₁, found, hfound, s₂, hs₂, hgrants⟩ := hround scope hmem
          exact .inr (.inr ⟨s, by simp [hfirst], m, hmember, howner, s₁, by simp [hs₁], found,
            hfound, s₂, by simp [hs₂], hgrants⟩)

theorem sees_call {α : Type} (answer : World → Except Failure α) :
    (call answer).Sees fun a seen => ∃ s : Store, answer s.world = .ok a ∧ seen = [s] := by
  refine (sees_ask _ _).bind fun r first ⟨s, hr, hfirst⟩ => ?_
  refine (sees_ofExcept r).mono fun a seen ⟨ha, hseen⟩ => ⟨s, hr.symm.trans ha, ?_⟩
  rw [hseen, hfirst]
  rfl

variable [Locale]

theorem sees_readResourceCatalog (resource : ApiResource) (connection : ResourceConnection)
    (limit offset : ℕ) : (readResourceCatalog resource connection limit offset).Sees
      fun catalog seen => ∀ item ∈ catalog.items, Catalogued seen connection item := by
  refine Sees.after ?_ _ fun authorization => ?_
  · exact fun catalog seen earlier h item hitem =>
      (h item hitem).imp_left fun hs => hs.mono (by simp)
  · split
    · refine (sees_ofExcept _).bind fun credential _ _ => (sees_require _ _).bind fun _ _ _ => ?_
      refine (sees_true _).bind fun token first _ => ?_
      refine (sees_call _).bind fun catalog second ⟨s, hcatalog, hsecond⟩ => ?_
      refine (sees_ofExcept _).bind fun _ _ _ => sees_done fun item hitem => ?_
      exact .inl ⟨s, by simp [hsecond], _, _, catalog, hcatalog, hitem⟩
    · refine sees_done fun item hitem => .inr ?_
      obtain ⟨detail, hdetail, rfl⟩ := List.mem_map.mp hitem
      exact ⟨rfl, List.mem_of_mem_drop (List.mem_of_mem_take hdetail)⟩

/-- The loop over the pages: every item that it has gathered was listed. -/
theorem sees_catalogItemsFrom (resource : ApiResource) (connection : ResourceConnection)
    (enough : List CatalogItem → Bool) {earlier : List Store} (pages page : ℕ)
    (items : List CatalogItem) (hitems : ∀ item ∈ items, Catalogued earlier connection item) :
    (catalogItemsFrom resource connection enough pages page items).Sees fun found seen =>
      ∀ item ∈ found, Catalogued (seen ++ earlier) connection item := by
  induction pages generalizing page items earlier with
  | zero => exact trivial
  | succ pages ih =>
    refine (sees_readResourceCatalog _ _ _ _).bind fun catalog first hcatalog => ?_
    have hgathered : ∀ item ∈ items ++ catalog.items,
        Catalogued (first ++ earlier) connection item := by
      intro item hitem
      rcases List.mem_append.mp hitem with hitem | hitem
      · exact (hitems item hitem).imp_left fun hs => hs.mono (by simp)
      · exact (hcatalog item hitem).imp_left fun hs => hs.mono (by simp)
    split
    · exact sees_done hgathered
    · refine (ih _ _ hgathered).mono fun found seen h item hitem => ?_
      rw [List.append_assoc]
      exact h item hitem

theorem sees_catalogItems (resource : ApiResource) (connection : ResourceConnection)
    (enough : List CatalogItem → Bool) : (catalogItems resource connection enough).Sees
      fun items seen => ∀ item ∈ items, Catalogued seen connection item := by
  refine (sees_true _).bind fun pages first _ => ?_
  refine (sees_catalogItemsFrom resource connection enough _ _ [] fun item hitem => (nomatch hitem)
    ).mono fun found seen h item hitem =>
      (h item hitem).imp_left fun hs => hs.mono (List.Subset.refl _)

omit [Locale] in
/-- The account of an approval, in the hands of the actor or of an Organization. -/
theorem sees_requireControlledConnection (connectionId actorUserId : Id) :
    (requireControlledConnection connectionId actorUserId).Sees fun connection seen =>
      connection.id = connectionId ∧
      (∃ s ∈ seen, s.directory.findConnection connection.id = some connection) ∧
      ∀ owner, connection.owner = .user owner → owner = actorUserId := by
  refine (sees_look _).bind fun found first ⟨s, hfound, hfirst⟩ => ?_
  refine (sees_orThrow _ _).bind fun connection _ ⟨hconnection, _⟩ => ?_
  have hstored : s.directory.findConnection connectionId = some connection :=
    hfound.symm.trans hconnection
  have hid : connection.id = connectionId := Relational.key_of_lookup hstored
  subst hid
  split
  · rename_i id howner
    refine (sees_require _ _).bind fun _ _ ⟨hactor, _⟩ => sees_done ?_
    refine ⟨rfl, ⟨s, by simp [hfirst], hstored⟩, fun owner h => ?_⟩
    rw [howner, Owner.user.injEq] at h
    exact h.symm.trans hactor
  · rename_i id howner
    refine (sees_true _).bind fun allowed second _ => ?_
    refine (sees_require _ _).bind fun _ _ _ => sees_done ?_
    refine ⟨rfl, ⟨s, by simp [hfirst], hstored⟩, fun owner h => ?_⟩
    rw [howner] at h
    cases h

omit [Locale] in
theorem sees_permissionConnection (resource : ApiResource) (connectionId : Option Id)
    (ownerUserId actorUserId : Id) :
    (permissionConnection resource connectionId ownerUserId actorUserId).Sees
      fun connection seen => (∀ id, connectionId = some id → connection.id = id) ∧
        (∃ s ∈ seen, s.directory.findConnection connection.id = some connection) ∧
        ∀ owner, connection.owner = .user owner → owner = actorUserId := by
  unfold permissionConnection
  cases connectionId with
  | some id =>
    refine (sees_requireControlledConnection id actorUserId).mono fun connection seen h => ?_
    refine ⟨fun id' hid' => ?_, h.2⟩
    rw [h.1, Option.some.inj hid']
  | none =>
    refine (sees_look _).bind fun found first _ => (sees_orThrow _ _).bind fun account _ _ => ?_
    refine (sees_requireControlledConnection _ _).mono
      fun connection seen ⟨_, ⟨s, hs, hstored⟩, howner⟩ => ?_
    refine ⟨fun id h => (nomatch h), ⟨s, ?_, hstored⟩, howner⟩
    simp [hs]

end Accounts

section Targets

variable [Locale]

omit [Locale] in
theorem declared_of_validate {resource : ApiResource} {scopes : List String}
    (h : validateResourceRequestedScopes resource scopes = .ok ()) {scope : String}
    (hscope : scope ∈ scopes) : if resource.isRealmroot then scope ∈ realmrootOAuthScopes
      else scope ∈ resource.declaredScopes := by
  unfold validateResourceRequestedScopes validateRequestedScopes at h
  split at h
  · rename_i hrealmroot
    rw [if_pos hrealmroot]
    split at h
    · cases h
    · rename_i hall
      by_contra hnot
      exact hall (List.any_eq_true.mpr ⟨scope, hscope, by simpa using hnot⟩)
  · rename_i hrealmroot
    rw [if_neg hrealmroot]
    split at h
    · cases h
    · rename_i hall
      by_contra hnot
      exact hall (List.any_eq_true.mpr ⟨scope, hscope, by simpa using hnot⟩)

def Resolved (seen : List Store) (details : List AuthorizationDetail)
    (resolvedAccountScopes : Option (List String)) : Prop :=
  ∀ granted, resolvedAccountScopes = some granted → ∃ item, Shown seen item ∧
    details = [item.authorizationDetail] ∧ item.grantedScopes = some granted

/-- The scopes that the account grants, however they are found. -/
theorem sees_contextual (resource : ApiResource) (connection : ResourceConnection)
    (scopes : List String) (details : List AuthorizationDetail)
    (resolvedAccountScopes : Option (List String)) {earlier : List Store}
    (hresolved : Resolved earlier details resolvedAccountScopes) :
    (do
      let contextual ←
        if resolvedAccountScopes.isSome then pure resolvedAccountScopes
        else if details.isEmpty then pure none
        else accountScopesForAuthorizationDetails resource connection details
      Procedure.ofExcept (assertScopeSubset scopes
        (contextual.getD connection.grantedScopes) "connected account")
      return some connection : Access (Option ResourceConnection)).Sees fun found seen =>
      found = some connection ∧
        ∀ scope ∈ scopes, AccountGrants (seen ++ earlier) connection details scope := by
  have hlast : ∀ (contextual : Option (List String)) (first : List Store),
      (∀ scope ∈ contextual.getD connection.grantedScopes,
        AccountGrants (first ++ earlier) connection details scope) →
      (do
        Procedure.ofExcept (assertScopeSubset scopes
          (contextual.getD connection.grantedScopes) "connected account")
        return some connection : Access (Option ResourceConnection)).Sees fun found seen =>
        found = some connection ∧ ∀ scope ∈ scopes,
          AccountGrants (seen ++ first ++ earlier) connection details scope := by
    intro contextual first hcontextual
    refine (sees_ofExcept _).bind fun _ second ⟨hsubset, hsecond⟩ => sees_done ⟨rfl, ?_⟩
    intro scope hscope
    have hallowed := assertScopeSubset_eq_ok.mp hsubset scope hscope
    exact (hcontextual scope hallowed).mono (by simp)
  dsimp only
  split
  · rename_i hsome
    obtain ⟨granted, rfl⟩ := Option.isSome_iff_exists.mp hsome
    obtain ⟨item, hshown, hdetail, hgranted⟩ := hresolved granted rfl
    refine (hlast (some granted) [] fun scope hscope => .inr (.inr ?_)).mono fun found seen h => ?_
    · exact ⟨item, granted, hshown.mono (by simp), hdetail, hgranted, hscope⟩
    · simpa using h
  · split
    · rename_i hempty
      refine (hlast none [] fun scope hscope => .inr (.inl ?_)).mono fun found seen h => ?_
      · exact ⟨List.isEmpty_iff.mp hempty, hscope⟩
      · simpa using h
    · rename_i hnonempty
      refine Sees.bind (P := fun contextual seen => ∀ scope ∈
        contextual.getD connection.grantedScopes,
          AccountGrants (seen ++ earlier) connection details scope) ?_
            fun contextual first hgrants => ?_
      · refine (sees_catalogItems resource connection _).bind fun items first hitems => sees_done ?_
        intro scope hscope
        refine .inl ⟨fun hnil => hnonempty (List.isEmpty_iff.mpr hnil), items, fun item hitem => ?_,
          hscope⟩
        exact (hitems item hitem).imp_left fun hs => hs.mono (by simp)
      · exact hlast contextual first hgrants

/-- A target that passes its checks: each of its scopes is the controller's to give. -/
theorem sees_validateAgentPermissionTarget (resource : ApiResource) (input : PermissionTarget)
    (details : List AuthorizationDetail) (actorUserId : Id)
    (resolvedAccountScopes : Option (List String)) {earlier : List Store}
    (hresolved : Resolved earlier details resolvedAccountScopes) :
    (validateAgentPermissionTarget resource input details actorUserId
      resolvedAccountScopes).Sees fun connection seen =>
      (∀ scope ∈ input.scopes, TargetChecked (seen ++ earlier) actorUserId input.agentIdentityId
        resource (connection.map (·.id)) details scope) ∧
      (resource.requiresAccountConnection = true →
        (∃ s ∈ seen, ∃ identity, s.directory.findIdentity input.agentIdentityId = some identity ∧
          identity.ownerUserId = actorUserId) ∧
        ∀ id, input.connectionId = some id → connection.map (·.id) = some id) ∧
      (resource.requiresAccountConnection = false →
        connection = none ∧ input.connectionId = none) := by
  refine (sees_ofExcept _).bind fun _ _ hdeclared => ?_
  refine (sees_look _).bind fun found first hfirst => ?_
  obtain ⟨s, hfound, hfirst⟩ := hfirst
  refine (sees_orThrow _ _).bind fun identity _ hidentity => ?_
  refine (sees_requireAgentResourceVisibility _ _).bind fun _ second hoffered => ?_
  obtain ⟨hidentity, hstatus⟩ := Option.filter_eq_some_iff.mp hidentity.1
  rw [hfound] at hidentity
  have hstatus : identity.status = .active := by simpa using hstatus
  split
  · rename_i hexternal
    refine sees_clock.bind fun now third hthird => ?_
    obtain ⟨s', hnow, hthird⟩ := hthird
    refine (sees_userEffectiveResourceScopes_anywhere _ _ _).bind fun scopes fourth hheld => ?_
    refine (sees_ofExcept _).bind fun _ _ hsubset => ?_
    refine (sees_permissionConnection _ _ _ _).bind fun connection fifth hconnection => ?_
    obtain ⟨hrequested, hstored, howner⟩ := hconnection
    refine (sees_require _ _).bind fun _ _ hrequired => ?_
    obtain ⟨⟨haccount, hactive⟩, _⟩ := hrequired
    refine (sees_ofExcept _).bind fun _ _ hhome => ?_
    refine (sees_ofExcept _).bind fun _ _ hselection => ?_
    refine (sees_ofExcept _).bind fun _ _ hcovered => ?_
    refine (sees_contextual resource connection input.scopes details resolvedAccountScopes
      hresolved).mono fun result last hlast => ?_
    obtain ⟨rfl, hgranted⟩ := hlast
    have hhome : connection.owner = .user identity.ownerUserId := by
      have hhome := hhome.1
      unfold assertConnectionInHomeSpace at hhome
      split at hhome
      · assumption
      · cases hhome
    have hcovered : isAuthorizationDetailsSubset details
        connection.authorizationDetails = true := by
      have hcovered := hcovered.1
      unfold assertAuthorizationDetailsSubset at hcovered
      split at hcovered
      · assumption
      · cases hcovered
    refine ⟨fun scope hscope => ⟨declared_of_validate hdeclared.1 hscope, s, by simp [hfirst],
      identity, hidentity, hstatus, hoffered.mono ?_, .external hexternal ?_⟩,
      fun _ => ⟨?_, ?_⟩, ?_⟩
    · intro t ht
      simp [ht]
    · obtain ⟨t, ht, hstored⟩ := hstored
      refine ⟨⟨t, by simp [ht], hstored⟩, hhome, haccount, hactive, hselection.1, hcovered,
        ⟨now, ?_, ?_⟩, (hgranted scope hscope).mono ?_⟩
      · simp [hthird, hnow]
      · refine (hheld scope (assertScopeSubset_eq_ok.mp hsubset.1 scope hscope)).mono ?_
        intro t ht
        simp [ht]
      · intro t ht
        rcases List.mem_append.mp ht with ht | ht <;> simp [ht]
    · exact ⟨s, by simp [hfirst], identity, hidentity, howner _ hhome⟩
    · intro id hid
      exact congrArg some (hrequested id hid)
    · intro hnative
      rw [hexternal] at hnative
      cases hnative
  · rename_i hnative
    refine (sees_requireCurrentNativeAuthorityContext _ _).bind fun _ third hthird => ?_
    obtain ⟨detail, hsingle, hcontext⟩ := hthird
    refine (sees_nativeAuthorityEffectiveScopes _ _ _).bind fun scopes fourth hheld => ?_
    refine (sees_ofExcept _).bind fun _ _ hsubset => ?_
    refine (sees_require _ _).bind fun _ _ hnone => ?_
    refine (sees_ofExcept _).bind fun _ _ _ => sees_done ?_
    subst hsingle
    have hnative : resource.requiresAccountConnection = false := Bool.eq_false_iff.mpr hnative
    refine ⟨fun scope hscope => ⟨declared_of_validate hdeclared.1 hscope, s, by simp [hfirst],
      identity, hidentity, hstatus, hoffered.mono ?_, .native hnative rfl (hcontext.mono ?_) ?_⟩,
      fun hexternal => ?_, fun _ => ⟨rfl, hnone.1⟩⟩
    · intro t ht
      simp [ht]
    · intro t ht
      simp [ht]
    · refine (hheld scope (assertScopeSubset_eq_ok.mp hsubset.1 scope hscope)).mono fun t ht => ?_
      simp [ht]
    · rw [hnative] at hexternal
      cases hexternal

end Targets

end FlareAuth
