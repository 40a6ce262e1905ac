import FlareAuth.GrantLoops

/-!
# What a request for permissions resolves to

Before its first write a request resolves its account and its Contexts from the
directory and from what the systems outside answer, and checks them against the
scopes that its controller has at the time.
-/

namespace FlareAuth

open Concurrent Procedure Access Relational

section Directory

variable {α β : Type} {R : Store → Store → Prop}
  (hdirectory : ∀ s t, R s t → s.directory = t.directory)

theorem agrees_ask {answer : Store → α} (query : Query)
    (hanswer : ∀ s t, R s t → answer s = answer t) : (ask query answer).Agrees R :=
  agrees_query hanswer fun _ _ h => h

include hdirectory

theorem agrees_look (answer : Directory → α) : (look answer).Agrees R :=
  agrees_ask .directory fun s t h => congrArg answer (hdirectory s t h)

theorem agrees_look_bind (answer : Directory → α) {f : α → Access β}
    (hf : ∀ a, (f a).Agrees R) : (look answer >>= f).Agrees R :=
  (agrees_look hdirectory answer).bind hf

theorem agrees_resolveOrganizationMembershipScopesForResource (organizationId : Id)
    (roles : List String) (resource : Option ApiResource) :
    (resolveOrganizationMembershipScopesForResource organizationId roles resource).Agrees R := by
  cases resource with
  | none => exact trivial
  | some resource =>
    refine .bind (agrees_ofExcept _) fun predefined => ?_
    exact agrees_look_bind hdirectory _ fun dynamic => trivial

theorem agrees_organizationUserHasScope (organizationId userId : Id) (scope : String) :
    (organizationUserHasScope organizationId userId scope).Agrees R := by
  refine agrees_look_bind hdirectory _ fun member =>
    agrees_look_bind hdirectory _ fun realmroot => ?_
  cases member with
  | none => exact trivial
  | some member =>
    exact (agrees_resolveOrganizationMembershipScopesForResource hdirectory _ _ _).bind
      fun _ => trivial

theorem agrees_activeIdentityOrganizationIds (ownerUserId : Id) :
    (activeIdentityOrganizationIds ownerUserId).Agrees R := by
  refine agrees_look_bind hdirectory _ fun candidates => ?_
  exact (agrees_collect fun id => agrees_look hdirectory _).bind fun _ => trivial

theorem agrees_requireAgentResourceVisibility (resource : ApiResource) (ownerUserId : Id) :
    (requireAgentResourceVisibility resource ownerUserId).Agrees R :=
  (agrees_activeIdentityOrganizationIds hdirectory ownerUserId).bind fun _ => agrees_require _ _

theorem agrees_nativeAuthorityDetails (ownerUserId : Id) :
    (nativeAuthorityDetails ownerUserId).Agrees R :=
  (agrees_activeIdentityOrganizationIds hdirectory ownerUserId).bind fun _ => trivial

theorem agrees_requireControlledConnection (connectionId actorUserId : Id) :
    (requireControlledConnection connectionId actorUserId).Agrees R := by
  refine agrees_look_bind hdirectory _ fun found => .bind (agrees_orThrow _ _) fun connection => ?_
  split
  · exact .bind (agrees_require _ _) fun _ => trivial
  · exact (agrees_organizationUserHasScope hdirectory _ _ _).bind fun allowed =>
      .bind (agrees_require _ _) fun _ => trivial

theorem agrees_permissionConnection (resource : ApiResource) (connectionId : Option Id)
    (ownerUserId actorUserId : Id) :
    (permissionConnection resource connectionId ownerUserId actorUserId).Agrees R := by
  cases connectionId with
  | some id => exact agrees_requireControlledConnection hdirectory id actorUserId
  | none =>
    refine agrees_look_bind hdirectory _ fun found =>
      .bind (agrees_orThrow _ _) fun connection => ?_
    exact agrees_requireControlledConnection hdirectory _ _

theorem agrees_activeConnectorAuthorizationForResource (resource : ApiResource)
    (clientGeneration : Option ℕ) :
    (activeConnectorAuthorizationForResource resource clientGeneration).Agrees R := by
  unfold activeConnectorAuthorizationForResource
  split
  · exact agrees_look_bind hdirectory _ fun connector => trivial
  · exact trivial

end Directory

variable [Locale]

section Catalogs

variable {α : Type} {R : Store → Store → Prop}
  (hdirectory : ∀ s t, R s t → s.directory = t.directory)
    (hworld : ∀ s t, R s t → s.world = t.world)

include hworld

omit [Locale] in
theorem agrees_call (answer : World → Except Failure α) : (call answer).Agrees R :=
  .bind (agrees_ask .outside fun s t h => congrArg answer (hworld s t h)) fun _ => agrees_ofExcept _

include hdirectory

theorem agrees_readResourceCatalog (resource : ApiResource) (connection : ResourceConnection)
    (limit offset : ℕ) : (readResourceCatalog resource connection limit offset).Agrees R := by
  refine .bind (agrees_activeConnectorAuthorizationForResource hdirectory _ _)
    fun authorization => ?_
  split
  · refine .bind (agrees_ofExcept _) fun credential => .bind (agrees_require _ _) fun _ => ?_
    refine .bind (agrees_call hworld _) fun token => .bind (agrees_call hworld _) fun catalog => ?_
    exact .bind (agrees_ofExcept _) fun _ => trivial
  · exact trivial

theorem agrees_catalogItemsFrom (resource : ApiResource) (connection : ResourceConnection)
    (enough : List CatalogItem → Bool) (pages page : ℕ) (items : List CatalogItem) :
    (catalogItemsFrom resource connection enough pages page items).Agrees R := by
  induction pages generalizing page items with
  | zero => exact trivial
  | succ pages ih =>
    refine .bind (agrees_readResourceCatalog hdirectory hworld _ _ _ _) fun catalog => ?_
    split
    · exact trivial
    · exact ih _ _

theorem agrees_catalogItems (resource : ApiResource) (connection : ResourceConnection)
    (enough : List CatalogItem → Bool) : (catalogItems resource connection enough).Agrees R :=
  .bind (agrees_ask .outside fun s t h => congrArg World.catalogPages (hworld s t h)) fun _ =>
    agrees_catalogItemsFrom hdirectory hworld _ _ _ _ _ _

/-- The Contexts of a request depend on the directory and the catalog alone. -/
theorem agrees_permissionSelections (resource : ApiResource) (actorUserId : Id)
    (organizationId : Option Id) :
    (permissionSelections resource actorUserId organizationId).Agrees R := by
  unfold permissionSelections
  split
  · refine agrees_look_bind hdirectory _ fun found =>
      .bind (agrees_orThrow _ _) fun connection => ?_
    split
    · exact trivial
    · exact .bind (agrees_catalogItems hdirectory hworld _ _ _) fun items =>
        .bind (agrees_require _ _) fun _ => trivial
  · exact trivial

end Catalogs

section Checks

structure SameChecks (s t : Store) : Prop where
  directory : s.directory = t.directory
  world : s.world = t.world
  now : s.now = t.now
  users : ∀ userId resourceId now, s.listActiveUserScopeEntitlements userId resourceId now =
    t.listActiveUserScopeEntitlements userId resourceId now

omit [Locale] in
theorem agrees_userEffectiveResourceScopes (userId : Id) (resource : ApiResource) (now : ℕ)
    (tenant : TenantOrganization) :
    (userEffectiveResourceScopes userId resource now tenant).Agrees SameChecks := by
  have hdirectory : ∀ s t : Store, SameChecks s t → s.directory = t.directory := fun _ _ h =>
    h.directory
  refine agrees_look_bind hdirectory _ fun memberships => ?_
  dsimp only
  split
  · exact trivial
  · refine .bind (agrees_ask _ fun s t h => h.users userId resource.id now) fun entitlements => ?_
    refine .bind (agrees_collect fun membership => ?_) fun inherited => trivial
    exact agrees_look_bind hdirectory _ fun _ =>
      agrees_resolveOrganizationMembershipScopesForResource hdirectory _ _ _

omit [Locale] in
theorem agrees_clock : clock.Agrees SameChecks := agrees_ask .clock fun _ _ h => h.now

omit [Locale] in
theorem agrees_nativeAuthorityEffectiveScopes (controllerUserId : Id) (resource : ApiResource)
    (detail : AuthorizationDetail) :
    (nativeAuthorityEffectiveScopes controllerUserId resource detail).Agrees SameChecks := by
  have hscopes : ∀ tenant (f : List String → List String), (do
      let now ← clock
      return f (← userEffectiveResourceScopes controllerUserId resource now tenant) :
        Access (List String)).Agrees SameChecks := fun tenant f =>
    agrees_clock.bind fun now => (agrees_userEffectiveResourceScopes _ _ _ _).bind fun _ => trivial
  unfold nativeAuthorityEffectiveScopes
  dsimp only
  split
  · split
    · refine agrees_look_bind (fun _ _ h => h.directory) _ fun entitled => ?_
      split
      · exact trivial
      · exact hscopes _ _
    · exact hscopes _ _
  · split
    · exact trivial
    · exact hscopes _ _
  · exact trivial

theorem agrees_validateAgentPermissionTarget (resource : ApiResource) (input : PermissionTarget)
    (authorizationDetails : List AuthorizationDetail) (actorUserId : Id)
    (resolvedAccountScopes : Option (List String)) :
    (validateAgentPermissionTarget resource input authorizationDetails actorUserId
      resolvedAccountScopes).Agrees SameChecks := by
  have hdirectory : ∀ s t : Store, SameChecks s t → s.directory = t.directory := fun _ _ h =>
    h.directory
  have hworld : ∀ s t : Store, SameChecks s t → s.world = t.world := fun _ _ h => h.world
  refine .bind (agrees_ofExcept _) fun _ => agrees_look_bind hdirectory _ fun found => ?_
  refine .bind (agrees_orThrow _ _) fun identity => ?_
  refine .bind (agrees_requireAgentResourceVisibility hdirectory _ _) fun _ => ?_
  split
  · refine agrees_clock.bind fun now => ?_
    refine .bind (agrees_userEffectiveResourceScopes _ _ _ _) fun grantorScopes => ?_
    refine .bind (agrees_ofExcept _) fun _ => ?_
    refine .bind (agrees_permissionConnection hdirectory _ _ _ _) fun connection => ?_
    refine .bind (agrees_require _ _) fun _ => .bind (agrees_ofExcept _) fun _ => ?_
    refine .bind (agrees_ofExcept _) fun _ => .bind (agrees_ofExcept _) fun _ => ?_
    have hlast : ∀ contextual : Option (List String), (do
        Procedure.ofExcept (assertScopeSubset input.scopes
          (contextual.getD connection.grantedScopes) "connected account")
        return some connection : Access (Option ResourceConnection)).Agrees SameChecks :=
      fun contextual => .bind (agrees_ofExcept _) fun _ => agrees_done _
    dsimp only
    split
    · exact hlast _
    · split
      · exact hlast _
      · refine .bind ?_ hlast
        exact .bind (agrees_catalogItems hdirectory hworld _ _ _) fun _ => agrees_done _
  · refine .bind ?_ fun _ => ?_
    · exact .bind (agrees_ofExcept _) fun _ =>
        .bind (agrees_nativeAuthorityDetails hdirectory _) fun _ => agrees_require _ _
    · refine .bind (agrees_nativeAuthorityEffectiveScopes _ _ _) fun grantorScopes => ?_
      refine .bind (agrees_ofExcept _) fun _ => .bind (agrees_require _ _) fun _ => ?_
      exact .bind (agrees_ofExcept _) fun _ => trivial

end Checks

section Plans

/-- What a request resolves to. -/
structure PermissionPlan where
  grant : DirectGrant
  targets : List GrantTarget
  now : ℕ

/-- Everything of a request before its first write. -/
def planPermission (agentId : Id) (input : CreateAgentPermission) (actorUserId : Id)
    (organizationId : Option Id) : Access PermissionPlan := do
  let controlled ← controlsAgentIdentity agentId actorUserId
  require controlled (forbidden "Agent controller access is required.")
  let found ← look (·.findResourceByResourceUrl input.resource)
  let resource ← orThrow (found.filter (·.enabled))
    (notFound "Enabled Resource Server was not found.")
  let scopes := Text.unique input.scopes
  let now ← clock
  requireFutureExpiry input.lifetime now
  let (connectionId, selections) ← permissionSelections resource actorUserId organizationId
  forEach selections fun selection => do
    let _ ← validateAgentPermissionTarget resource ⟨agentId, scopes, connectionId⟩
      selection.authorizationDetails actorUserId selection.grantedScopes
  return {
    grant := ⟨agentId, resource.id, connectionId, input.lifetime, actorUserId⟩
    targets := selections.flatMap fun selection =>
      scopes.map fun scope => (selection.authorizationDetails, scope)
    now := now }

variable (agentId : Id) (input : CreateAgentPermission) (actorUserId : Id)
  (organizationId : Option Id)

omit [Locale] agentId input actorUserId organizationId in
/-- The nested loops are one over the targets. -/
theorem collect_targets (selections : List PermissionSelection) (scopes : List String)
    (body : GrantTarget → Access ScopeEntitlement) :
    (collect selections fun selection => collect scopes fun scope =>
        body (selection.authorizationDetails, scope)) >>= (fun es => done es.flatten) =
      collect (selections.flatMap fun selection =>
        scopes.map fun scope => (selection.authorizationDetails, scope)) body := by
  have htargets : (selections.flatMap fun selection =>
      scopes.map fun scope => (selection.authorizationDetails, scope)) =
        (selections.flatMap fun selection => scopes.map fun scope => (selection, scope)).map
          fun x => (x.1.authorizationDetails, x.2) := by
    rw [List.map_flatMap]
    simp only [List.map_map, Function.comp_def]
  rw [htargets, collect_map]
  exact collect_collect selections scopes fun selection scope =>
    body (selection.authorizationDetails, scope)

/-- A request makes the grants of its plan. -/
theorem createAgentPermission_eq :
    createAgentPermission agentId input actorUserId organizationId =
      planPermission agentId input actorUserId organizationId >>= fun plan =>
        collect plan.targets (plan.grant.grant plan.now) := by
  unfold createAgentPermission planPermission
  simp only [bind_bind, pure_eq, done_bind, ← collect_targets]
  rfl

theorem reads_planPermission :
    (planPermission agentId input actorUserId organizationId).Reads := by
  simp [planPermission, controlsAgentIdentity, requireFutureExpiry]

theorem agrees_planPermission :
    (planPermission agentId input actorUserId organizationId).Agrees SameChecks := by
  have hdirectory : ∀ s t : Store, SameChecks s t → s.directory = t.directory := fun _ _ h =>
    h.directory
  have hworld : ∀ s t : Store, SameChecks s t → s.world = t.world := fun _ _ h => h.world
  refine .bind ?_ fun controlled => .bind (agrees_require _ _) fun _ => ?_
  · exact agrees_look_bind hdirectory _ fun _ => agrees_done _
  refine agrees_look_bind hdirectory _ fun found => .bind (agrees_orThrow _ _) fun resource => ?_
  refine agrees_clock.bind fun now => .bind (agrees_require _ _) fun _ => ?_
  refine .bind (agrees_permissionSelections hdirectory hworld _ _ _) fun selections => ?_
  refine .bind (agrees_forEach fun selection => ?_) fun _ => agrees_done _
  exact (agrees_validateAgentPermissionTarget _ _ _ _ _).bind fun _ => agrees_done _

variable {agentId input actorUserId organizationId} {s t u v : Store} {plan plan' : PermissionPlan}

/-- Each Context of a request has one detail at most. -/
theorem single_of_selections {resource : ApiResource}
    {found : Option Id × List PermissionSelection}
    (h : (permissionSelections resource actorUserId organizationId).exec s = (.ok found, t)) :
    ∀ selection ∈ found.2, selection.authorizationDetails.length ≤ 1 := by
  unfold permissionSelections at h
  intro selection hselection
  split at h
  · rw [exec_look_bind] at h
    obtain ⟨connection, -, h⟩ := exec_orThrow_bind h
    split at h
    · cases h
      obtain rfl := List.mem_singleton.mp hselection
      exact Nat.zero_le 1
    · obtain ⟨items, u, -, h⟩ := exec_bind_inv h
      obtain ⟨-, h⟩ := exec_require_bind h
      cases h
      obtain ⟨item, -, rfl⟩ := List.mem_map.mp hselection
      exact le_rfl
  · cases h
    obtain rfl := List.mem_singleton.mp hselection
    exact le_rfl

/-- What a plan consists of. -/
theorem plan_of_exec
    (h : (planPermission agentId input actorUserId organizationId).exec s = (.ok plan, t)) :
    s.ReadTo t ∧ input.lifetime.lasts s.now = true ∧ ∃ resource found u v, s.ReadTo u ∧
      (s.directory.findResourceByResourceUrl input.resource).filter (·.enabled) = some resource ∧
      (permissionSelections resource actorUserId organizationId).exec u = (.ok found, v) ∧
      plan = {
        grant := ⟨agentId, resource.id, found.1, input.lifetime, actorUserId⟩
        targets := found.2.flatMap fun selection => (Text.unique input.scopes).map fun scope =>
          (selection.authorizationDetails, scope)
        now := s.now } := by
  have hread := readTo_of_exec (reads_planPermission agentId input actorUserId organizationId) h
  unfold planPermission at h
  obtain ⟨controlled, s₁, -, hs₁, h⟩ := exec_reads_bind (by simp [controlsAgentIdentity]) h
  obtain ⟨-, h⟩ := exec_require_bind h
  rw [exec_look_bind] at h
  obtain ⟨resource, hresource, h⟩ := exec_orThrow_bind h
  dsimp only at h
  rw [exec_clock_bind] at h
  obtain ⟨hlasts, h⟩ := exec_require_bind h
  obtain ⟨found, s₂, hfound, hs₂, h⟩ := exec_reads_bind (by simp) h
  obtain ⟨_, s₃, -, -, h⟩ := exec_reads_bind (by simp) h
  cases h
  rw [hs₁.directory_eq] at hresource
  rw [hs₁.now_eq] at hlasts
  refine ⟨hread, hlasts, resource, found, s₁, s₂, hs₁, hresource, hfound, ?_⟩
  rw [← hs₁.now_eq]

/-- What a request resolves to depends on the directory and the catalog alone. -/
theorem plan_unique
    (h : (planPermission agentId input actorUserId organizationId).exec s = (.ok plan, t))
    (h' : (planPermission agentId input actorUserId organizationId).exec u = (.ok plan', v))
    (hdirectory : s.directory = u.directory) (hworld : s.world = u.world) :
    plan'.grant = plan.grant ∧ plan'.targets = plan.targets := by
  obtain ⟨-, -, resource, found, s₁, s₂, ⟨g, -, rfl⟩, hresource, hfound, rfl⟩ := plan_of_exec h
  obtain ⟨-, -, resource', found', u₁, u₂, ⟨g', -, rfl⟩, hresource', hfound', rfl⟩ :=
    plan_of_exec h'
  rw [hdirectory, hresource'] at hresource
  obtain rfl := Option.some.inj hresource
  have hagrees : (permissionSelections resource' actorUserId organizationId).Agrees
      fun s t => s.directory = t.directory ∧ s.world = t.world :=
    agrees_permissionSelections (fun _ _ h => h.1) (fun _ _ h => h.2) _ _ _
  have hsame := (hagrees.exec (s := { s with generated := g }) (t := { u with generated := g' })
    ⟨hdirectory, hworld⟩).1
  rw [hfound, hfound'] at hsame
  cases hsame
  exact ⟨rfl, rfl⟩

theorem single_of_plan
    (h : (planPermission agentId input actorUserId organizationId).exec s = (.ok plan, t)) :
    ∀ x ∈ plan.targets, x.1.length ≤ 1 := by
  obtain ⟨-, -, resource, found, u, v, -, -, hfound, rfl⟩ := plan_of_exec h
  intro x hx
  obtain ⟨selection, hselection, hx⟩ := List.mem_flatMap.mp hx
  obtain ⟨scope, -, rfl⟩ := List.mem_map.mp hx
  exact single_of_selections hfound selection hselection

theorem now_of_plan
    (h : (planPermission agentId input actorUserId organizationId).exec s = (.ok plan, t)) :
    plan.now = s.now := by
  obtain ⟨-, -, resource, found, u, v, -, -, -, rfl⟩ := plan_of_exec h
  rfl

theorem lasts_of_plan (hreusable : input.lifetime ≠ .once)
    (h : (planPermission agentId input actorUserId organizationId).exec s = (.ok plan, t)) :
    plan.grant.Lasts s.now := by
  obtain ⟨-, hlasts, resource, found, u, v, -, -, -, rfl⟩ := plan_of_exec h
  exact ⟨hreusable, hlasts⟩

end Plans

end FlareAuth
