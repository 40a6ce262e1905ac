import FlareAuth.AuditEvents

/-!
# Who sees which audit events

An event is shown, and counted, exactly if it belongs to a tenant of the caller and
satisfies the query. So a caller with restricted tenants learns nothing about the
events of others.
-/

namespace FlareAuth.AuditEvents

open Relational

section Purpose

def AuditEvent.BelongsTo (e : AuditEvent) : AuthorizationTenant → Prop
  | .user id => e.ownerUserId = some id
  | .organization id => e.ownerOrganizationId = some id

instance (e : AuditEvent) : (t : AuthorizationTenant) → Decidable (e.BelongsTo t)
  | .user id => inferInstanceAs (Decidable (e.ownerUserId = some id))
  | .organization id => inferInstanceAs (Decidable (e.ownerOrganizationId = some id))

/-- The event belongs to a tenant of the inventory, or the inventory is unrestricted. -/
def InInventory : Option (List AuthorizationTenant) → AuditEvent → Prop
  | none, _ => True
  | some tenants, e => ∃ t ∈ tenants, e.BelongsTo t

instance : (tenants : Option (List AuthorizationTenant)) → (e : AuditEvent) →
    Decidable (InInventory tenants e)
  | none, _ => inferInstanceAs (Decidable True)
  | some tenants, e => inferInstanceAs (Decidable (∃ t ∈ tenants, e.BelongsTo t))

/-- The text occurs in the event, or in the name or the identifier of its Resource Server. -/
def Found (resources : Keyed Resource.id) (search : String) (e : AuditEvent) : Prop :=
  (∃ text ∈ e.searched, Text.Contains search.toList text.toList) ∨
    ∃ r ∈ resources.rows, some r.id = e.resourceId ∧
      (Text.Contains search.toList r.name.toList ∨ Text.Contains search.toList r.identifier.toList)

instance (resources : Keyed Resource.id) (search : String) (e : AuditEvent) :
    Decidable (Found resources search e) := inferInstanceAs (Decidable (_ ∨ _))

structure Satisfies (resources : Keyed Resource.id) (query : AuditQuery)
    (e : AuditEvent) : Prop where
  organizationId : ∀ id ∈ query.organizationId, e.ownerOrganizationId = some id
  agentId : ∀ id ∈ query.agentId, e.agentIdentityId = some id
  search : ∀ search ∈ query.search, Found resources search e
  action : ∀ action ∈ query.action, e.action = action
  result : ∀ result ∈ query.result, e.result = result

instance (resources : Keyed Resource.id) (query : AuditQuery) (e : AuditEvent) :
    Decidable (Satisfies resources query e) :=
  decidable_of_iff ((∀ id ∈ query.organizationId, e.ownerOrganizationId = some id) ∧
      (∀ id ∈ query.agentId, e.agentIdentityId = some id) ∧
      (∀ search ∈ query.search, Found resources search e) ∧
      (∀ action ∈ query.action, e.action = action) ∧ ∀ result ∈ query.result, e.result = result)
    ⟨fun ⟨h₁, h₂, h₃, h₄, h₅⟩ => ⟨h₁, h₂, h₃, h₄, h₅⟩, fun h => ⟨h.1, h.2, h.3, h.4, h.5⟩⟩

def inventoryEvents (tenants : Option (List AuthorizationTenant)) (s : Store) : List AuditEvent :=
  s.events.filter fun e => decide (InInventory tenants e)

def visibleEvents (tenants : Option (List AuthorizationTenant)) (query : AuditQuery) (s : Store) :
    List AuditEvent :=
  (inventoryEvents tenants s).filter fun e => decide (Satisfies s.resources query e)

/-- A query that only asks for a page. -/
def AuditQuery.Unfiltered (query : AuditQuery) : Prop :=
  query.organizationId = none ∧ query.agentId = none ∧ query.search = none ∧ query.action = none ∧
    query.result = none

end Purpose

section Search

theorem auditSearchCondition_iff {resources : Keyed Resource.id} {search : String}
    {e : AuditEvent} :
    auditSearchCondition resources search e = true ↔ Found resources search e := by
  simp [auditSearchCondition, Found, Text.likeEscape_within]

end Search

section Owners

variable {e : AuditEvent}

/-- The constraint of the table. -/
theorem AuditEvent.owner_unique {userId organizationId : Id} (huser : e.ownerUserId = some userId)
    (horganization : e.ownerOrganizationId = some organizationId) : False := by
  have hone := e.exactlyOneOwner
  rw [huser, horganization] at hone
  simp at hone

theorem mem_organizationIds {ts : List AuthorizationTenant} {id : Id} :
    id ∈ organizationIds ts ↔ .organization id ∈ ts := by
  rw [organizationIds, List.mem_filterMap]
  constructor
  · rintro ⟨t, ht, hid⟩
    cases t with
    | user _ => cases hid
    | organization _ =>
      obtain rfl := Option.some.inj hid
      exact ht
  · intro h
    exact ⟨_, h, rfl⟩

theorem firstUser_eq_none {ts : List AuthorizationTenant} (h : firstUser ts = none) (id : Id) :
    .user id ∉ ts := by
  intro hmem
  have hnone := List.findSome?_eq_none_iff.mp h _ hmem
  cases hnone

theorem mem_of_firstUser {ts : List AuthorizationTenant} {id : Id} (h : firstUser ts = some id) :
    .user id ∈ ts := by
  obtain ⟨t, ht, hid⟩ := List.exists_of_findSome?_eq_some h
  cases t with
  | user _ =>
    obtain rfl := Option.some.inj hid
    exact ht
  | organization _ => cases hid

/-- An inventory has one user at most. -/
def OneUser (ts : List AuthorizationTenant) : Prop :=
  ∀ userId userId', .user userId ∈ ts → .user userId' ∈ ts → userId = userId'

theorem inInventory_iff {ts : List AuthorizationTenant} (hone : OneUser ts) :
    InInventory (some ts) e ↔
      (∃ id, firstUser ts = some id ∧ e.ownerUserId = some id) ∨
        ∃ id ∈ organizationIds ts, e.ownerOrganizationId = some id := by
  constructor
  · rintro ⟨t, ht, hbelongs⟩
    cases t with
    | organization id => exact .inr ⟨id, mem_organizationIds.mpr ht, hbelongs⟩
    | user id =>
      cases hfirst : firstUser ts with
      | none => exact absurd ht (firstUser_eq_none hfirst id)
      | some first =>
        obtain rfl := hone first id (mem_of_firstUser hfirst) ht
        exact .inl ⟨first, rfl, hbelongs⟩
  · rintro (⟨id, hfirst, hbelongs⟩ | ⟨id, hid, hbelongs⟩)
    · exact ⟨.user id, mem_of_firstUser hfirst, hbelongs⟩
    · exact ⟨.organization id, mem_organizationIds.mp hid, hbelongs⟩

end Owners

section Filters

variable {tenants : Option (List AuthorizationTenant)} {query : AuditQuery} {e : AuditEvent}

theorem any_contains_iff {o : Option Id} {ids : List Id} :
    o.any ids.contains = true ↔ ∃ id ∈ ids, o = some id := by
  cases o with
  | none => simp
  | some id => simp

/-- The owner that a filter asks for. -/
theorem tenantCondition_iff (hone : ∀ ts, tenants = some ts → OneUser ts) :
    tenantCondition (auditFilter tenants query) e = true ↔
      InInventory tenants e ∧ ∀ id ∈ query.organizationId, e.ownerOrganizationId = some id := by
  cases horganization : query.organizationId with
  | none =>
    cases tenants with
    | none => simp [tenantCondition, auditFilter, horganization, InInventory]
    | some ts =>
      have hcondition : tenantCondition (auditFilter (some ts) query) e = true ↔
          (∃ id, firstUser ts = some id ∧ e.ownerUserId = some id) ∨
            ∃ id ∈ organizationIds ts, e.ownerOrganizationId = some id := by
        cases hfirst : firstUser ts with
        | none => simp [tenantCondition, auditFilter, horganization, hfirst, any_contains_iff]
        | some userId =>
          simp [tenantCondition, auditFilter, horganization, hfirst, any_contains_iff]
      rw [hcondition, inInventory_iff (hone ts rfl)]
      simp
  | some id =>
    cases tenants with
    | none => simp [tenantCondition, auditFilter, horganization, InInventory, any_contains_iff]
    | some ts =>
      have hcondition : tenantCondition (auditFilter (some ts) query) e = true ↔
          id ∈ organizationIds ts ∧ e.ownerOrganizationId = some id := by
        by_cases hid : id ∈ organizationIds ts
        · simp [tenantCondition, auditFilter, horganization, hid, any_contains_iff]
        · simp [tenantCondition, auditFilter, horganization, hid, any_contains_iff]
      rw [hcondition, mem_organizationIds]
      constructor
      · rintro ⟨hid, howner⟩
        exact ⟨⟨_, hid, howner⟩, by simpa using howner⟩
      · rintro ⟨⟨t, ht, hbelongs⟩, howner⟩
        have howner : e.ownerOrganizationId = some id := howner id rfl
        cases t with
        | user userId => exact (AuditEvent.owner_unique hbelongs howner).elim
        | organization other =>
          obtain rfl : id = other := Option.some.inj (howner.symm.trans hbelongs)
          exact ⟨ht, howner⟩

theorem all_iff {α : Type} {o : Option α} {p : α → Bool} :
    o.all p = true ↔ ∀ a ∈ o, p a = true := by
  cases o <;> simp

theorem listCondition_iff (hone : ∀ ts, tenants = some ts → OneUser ts)
    (resources : Keyed Resource.id) :
    listCondition resources (auditFilter tenants query) e = true ↔
      InInventory tenants e ∧ Satisfies resources query e := by
  have haction : (auditFilter tenants query).action = query.action := rfl
  have hresult : (auditFilter tenants query).result = query.result := rfl
  have hsearch : (auditFilter tenants query).search = query.search := rfl
  have hagent : (auditFilter tenants query).agentIdentityId = query.agentId := rfl
  have hactions : (auditFilter tenants query).actions = none := rfl
  simp only [listCondition, Bool.and_eq_true, tenantCondition_iff hone, haction, hresult, hsearch,
    hagent, hactions, all_iff, auditSearchCondition_iff, beq_iff_eq]
  constructor
  · rintro ⟨⟨⟨⟨⟨-, haction⟩, hresult⟩, hsearch⟩, hagent⟩, hinventory, horganization⟩
    exact ⟨hinventory, horganization, hagent, hsearch, haction, hresult⟩
  · rintro ⟨hinventory, horganization, hagent, hsearch, haction, hresult⟩
    exact ⟨⟨⟨⟨⟨by simp, haction⟩, hresult⟩, hsearch⟩, hagent⟩, hinventory, horganization⟩

theorem filter_listCondition (hone : ∀ ts, tenants = some ts → OneUser ts) (s : Store) :
    s.events.filter (listCondition s.resources (auditFilter tenants query)) =
      visibleEvents tenants query s := by
  rw [visibleEvents, inventoryEvents, List.filter_filter]
  apply List.filter_congr
  intro e _
  rw [Bool.eq_iff_iff, listCondition_iff hone, Bool.and_eq_true, decide_eq_true_eq,
    decide_eq_true_eq, and_comm]

/-- The answer without a query is the answer of the query: there are no such rows. -/
theorem list_eq (s : Store) (page : Pagination) (filter : AuditFilter) :
    list s page filter = ⟨pageOf page (s.events.filter (listCondition s.resources filter)),
      (s.events.filter (listCondition s.resources filter)).length⟩ := by
  unfold list
  split
  · rename_i hempty
    have hnone : s.events.filter (listCondition s.resources filter) = [] := by
      rw [List.filter_eq_nil_iff]
      intro e _
      have howner : e.ownerOrganizationId.any ([] : List Id).contains = false := by
        cases e.ownerOrganizationId <;> rfl
      simp [listCondition, tenantCondition, hempty.1, hempty.2, howner]
    rw [hnone]
    simp [pageOf]
  · rfl

theorem list_auditFilter (hone : ∀ ts, tenants = some ts → OneUser ts) (s : Store)
    (page : Pagination) : list s page (auditFilter tenants query) =
      ⟨pageOf page (visibleEvents tenants query s), (visibleEvents tenants query s).length⟩ := by
  rw [list_eq, filter_listCondition hone]

end Filters

section Inventories

variable {d : Directory} {p : Principal} {scope : String}

theorem oneUser_of_restricted {ts : List AuthorizationTenant}
    (h : restrictedTenantInventory d p scope = .ok ts) : OneUser ts := by
  unfold restrictedTenantInventory at h
  split at h
  · rename_i userId huser
    have hself : ∀ id, .user id ∈ ts → id = userId := by
      intro id hid
      rcases heldTenants_cases d p scope
          (.user userId :: (d.listUserMemberships userId).map
            fun m => .organization m.organizationId)
        with ⟨held, hheld, _, hmem⟩ | ⟨e, herror, _⟩
      · obtain rfl : held = ts := Except.ok.inj (hheld.symm.trans h)
        rcases List.mem_cons.mp ((hmem _).mp hid).1 with hsame | hother
        · exact Owner.user.inj hsame
        · obtain ⟨m, _, hm⟩ := List.mem_map.mp hother
          cases hm
      · cases herror.symm.trans h
    intro userId' userId'' h' h''
    rw [hself userId' h', hself userId'' h'']
  · split at h
    · cases h
    · obtain rfl := Except.ok.inj h
      intro userId userId' huser
      simp at huser
  · split at h
    · cases h
    · rename_i agent _ _ _ _
      obtain rfl := Except.ok.inj h
      intro userId userId' huser huser'
      have hfirst := Option.mem_toList.mp huser
      have hsecond := Option.mem_toList.mp huser'
      exact Owner.user.inj (Option.some.inj (hfirst.symm.trans hsecond))
  · cases h

theorem oneUser_of_inventory {tenants : Option (List AuthorizationTenant)}
    (h : authorizedTenantInventory d p scope = .ok tenants) :
    ∀ ts, tenants = some ts → OneUser ts := by
  rintro ts rfl
  unfold authorizedTenantInventory at h
  obtain ⟨platform, _, h⟩ := except_bind_eq_ok h
  obtain ⟨context, _, h⟩ := except_bind_eq_ok h
  split at h
  · cases h
  · obtain ⟨held, hheld, h⟩ := except_bind_eq_ok h
    obtain rfl := Option.some.inj (Except.ok.inj h)
    exact oneUser_of_restricted hheld

end Inventories

section Listing

variable {d : Directory} {p : Principal} {query : AuditQuery}
  {tenants : Option (List AuthorizationTenant)}

def responseFor (query : AuditQuery) (s : Store) (events : List AuditEvent) : AuditEventsResponse :=
  let items := pageOf query.pagination events
  ⟨items.map (present (findResources s (Text.unique (items.filterMap (·.resourceId))))),
    query.pagination.offset / query.pagination.limit + 1, query.pagination.limit, events.length,
    (events.length + query.pagination.limit - 1) / query.pagination.limit⟩

theorem listAuditEvents_eq
    (h : authorizedTenantInventory d p "audit-events:read" = .ok tenants) (s : Store) :
    listAuditEvents d p query s = (checkAgent d p query.agentId).map fun _ =>
      responseFor query s (visibleEvents tenants query s) := by
  unfold listAuditEvents
  rw [h]
  change (checkAgent d p query.agentId >>= fun _ => _) = _
  cases checkAgent d p query.agentId with
  | error e => rfl
  | ok _ =>
    change Except.ok _ = Except.ok _
    rw [list_auditFilter (oneUser_of_inventory h)]
    rfl

theorem responseFor_of_ok (h : authorizedTenantInventory d p "audit-events:read" = .ok tenants)
    {s : Store} {r : AuditEventsResponse} (hr : listAuditEvents d p query s = .ok r) :
    r = responseFor query s (visibleEvents tenants query s) := by
  rw [listAuditEvents_eq h] at hr
  cases hcheck : checkAgent d p query.agentId with
  | error e =>
    rw [hcheck] at hr
    cases hr
  | ok _ =>
    rw [hcheck] at hr
    exact (Except.ok.inj hr).symm

/-- Stores that a caller with these tenants cannot tell apart. -/
def Store.Alike (ts : List AuthorizationTenant) (s s' : Store) : Prop :=
  s.resources = s'.resources ∧ inventoryEvents (some ts) s = inventoryEvents (some ts) s'

theorem filter_decide_and (s : Store) : (s.events.filter fun e =>
    decide (InInventory tenants e ∧ Satisfies s.resources query e)) =
      visibleEvents tenants query s := by
  rw [visibleEvents, inventoryEvents, List.filter_filter]
  apply List.filter_congr
  intro e _
  rw [Bool.decide_and, Bool.and_comm]

theorem visibleEvents_of_alike {ts : List AuthorizationTenant} {s s' : Store} (h : s.Alike ts s') :
    visibleEvents (some ts) query s = visibleEvents (some ts) query s' := by
  rw [visibleEvents, visibleEvents, h.1, h.2]

theorem visibleEvents_of_unfiltered (h : query.Unfiltered) (s : Store) :
    visibleEvents tenants query s = inventoryEvents tenants s := by
  obtain ⟨horganization, hagent, hsearch, haction, hresult⟩ := h
  rw [visibleEvents, List.filter_eq_self]
  intro e _
  rw [decide_eq_true_eq]
  exact ⟨by simp [horganization], by simp [hagent], by simp [hsearch], by simp [haction],
    by simp [hresult]⟩

theorem mem_visibleEvents {s : Store} {e : AuditEvent} : e ∈ visibleEvents tenants query s ↔
    e ∈ s.events ∧ InInventory tenants e ∧ Satisfies s.resources query e := by
  rw [visibleEvents, inventoryEvents, List.mem_filter, List.mem_filter, decide_eq_true_eq,
    decide_eq_true_eq, and_assoc]

theorem mem_of_mem_pageOf {page : Pagination} {events : List AuditEvent} {e : AuditEvent}
    (h : e ∈ pageOf page events) : e ∈ events :=
  (List.mem_insertionSort _).mp (List.mem_of_mem_drop (List.mem_of_mem_take h))

structure Isolated (d : Directory) (p : Principal) (query : AuditQuery)
    (tenants : Option (List AuthorizationTenant)) : Prop where
  returned : ∀ s r, listAuditEvents d p query s = .ok r → ∀ item ∈ r.items, ∃ e ∈ s.events,
    (∃ resources, item = present resources e) ∧ InInventory tenants e ∧
      Satisfies s.resources query e
  counted : ∀ s r, listAuditEvents d p query s = .ok r → r.totalItems =
    (s.events.filter fun e => decide (InInventory tenants e ∧ Satisfies s.resources query e)).length
  alike : ∀ ts, tenants = some ts → ∀ s s', Store.Alike ts s s' →
    listAuditEvents d p query s = listAuditEvents d p query s'
  unfiltered : query.Unfiltered → ∀ s, listAuditEvents d p query s =
    .ok (responseFor query s (inventoryEvents tenants s))

/-- Every listing shows and counts just the events of the caller's tenants that the query asks
for. -/
theorem listing_isolated (h : authorizedTenantInventory d p "audit-events:read" = .ok tenants)
    (query : AuditQuery) : Isolated d p query tenants where
  returned s r hr item hitem := by
    obtain rfl := responseFor_of_ok h hr
    obtain ⟨e, he, rfl⟩ := List.mem_map.mp hitem
    obtain ⟨hevent, hinventory, hsatisfies⟩ := mem_visibleEvents.mp (mem_of_mem_pageOf he)
    exact ⟨e, hevent, ⟨_, rfl⟩, hinventory, hsatisfies⟩
  counted s r hr := by
    obtain rfl := responseFor_of_ok h hr
    rw [filter_decide_and]
    rfl
  alike ts hts s s' halike := by
    subst hts
    rw [listAuditEvents_eq h, listAuditEvents_eq h, visibleEvents_of_alike halike]
    simp only [responseFor, findResources, halike.1]
  unfiltered hquery s := by
    have hagent : query.agentId = none := hquery.2.1
    rw [listAuditEvents_eq h, hagent, visibleEvents_of_unfiltered hquery]
    rfl

end Listing

namespace Sample

def allQuery : AuditQuery where
  page := 1
  pageSize := 20
  organizationId := none
  agentId := none
  search := none
  action := none
  result := none
  page_pos := by decide
  pageSize_pos := by decide
  texts_ne := by decide

/-- The second page of the failures of one action that mention a text. -/
def failureQuery : AuditQuery where
  page := 2
  pageSize := 20
  organizationId := some "o"
  agentId := none
  search := some "100%"
  action := some "oauth.agent_resource_token_exchanged"
  result := some .denied
  page_pos := by decide
  pageSize_pos := by decide
  texts_ne := by decide

/-- The owner of an Organization sees the events of the Organization and those of the user, and a
search finds events among these only. -/
theorem listing_isolated_owner :
    authorizedTenantInventory FlareAuth.Sample.ownerDirectory FlareAuth.Sample.ownerPrincipal
        "audit-events:read" = .ok (some [.user "u", .organization "o"]) ∧
      ∀ query ∈ [allQuery, failureQuery], Isolated FlareAuth.Sample.ownerDirectory
        FlareAuth.Sample.ownerPrincipal query (some [.user "u", .organization "o"]) := by
  have h : authorizedTenantInventory FlareAuth.Sample.ownerDirectory FlareAuth.Sample.ownerPrincipal
      "audit-events:read" = .ok (some [.user "u", .organization "o"]) := by
    rfl
  exact ⟨h, fun query _ => listing_isolated h query⟩

end Sample

end FlareAuth.AuditEvents
