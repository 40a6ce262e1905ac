import FlareAuth.AccessProgram
import FlareAuth.ResourceBoundaries

/-!
# What a refresh of the discovered scopes ends

A refresh writes the scope registry again also where nothing changed, and where
it only records an error. The batch ends every entitlement whose scope is not of
the mode `assigned`, among them those that were approved automatically.
-/

namespace FlareAuth.ResourceServers

open Concurrent Relational

def realmrootRegistry : List ResourceScope :=
  realmrootManagementScopes.map fun value =>
    ⟨value, if value = "agents:write" then .automatic else .assigned⟩

/-- The scopes that the resource publishes, once its provider boundary has been checked. -/
def discoverScopes (d : Discovery) (refreshDynamicConnectorMetadata : Id → Except Failure Unit)
    (resource : ApiResource) : Except Failure (List ResourceScope) := do
  d.protectedResourceMetadata resource.resourceUrl
  if let some connectorId := present resource.connectorId then
    refreshDynamicConnectorMetadata connectorId
    validateResourceProviderBoundary d resource.resourceUrl resource.authorizationModel
      resource.connectorId resource.authorizationDetails
  d.synchronizeResourceDiscovery resource.resourceUrl resource.scopeRegistry

def replaceActiveDiscovery (id : Id) (registry : List ResourceScope) : Governance Unit := do
  let replaced ← Repository.replaceResourceDiscovery id registry
  Command.require (replaced = true) (badRequest "Resource Server is no longer active.")

/-- A failed refresh writes the stored registry back, with the error in it. -/
def recordFailure (id : Id) (resource : ApiResource) (error : Failure) : Governance Unit := do
  match resource.scopeRegistry with
  | some registry =>
    let _ ← Repository.replaceResourceDiscovery id registry
    Command.fail error
  | none => Command.fail error

def publishDiscovery (d : Discovery) (refreshDynamicConnectorMetadata : Id → Except Failure Unit)
    (id : Id) (resource : ApiResource) : Governance Unit := do
  let registry ← Command.ofExcept (discoverScopes d refreshDynamicConnectorMetadata resource)
  replaceActiveDiscovery id registry

def refreshResourceScopeRegistry (d : Discovery)
    (refreshDynamicConnectorMetadata : Id → Except Failure Unit) (id : Id) :
    Governance ApiResource := do
  let resource ← getResource id
  Command.require (resource.enabled = true)
    (badRequest "Resource Server must be active before synchronizing scopes.")
  if resource.isRealmroot then
    replaceActiveDiscovery id realmrootRegistry
    getResource id
  else
    Command.catching (publishDiscovery d refreshDynamicConnectorMetadata id resource)
      (recordFailure id resource)
    getResource id

variable {d : Discovery} {refreshMetadata : Id → Except Failure Unit} {id : Id} {s t : Store}
  {resource : ApiResource} {registry : List ResourceScope}

def Store.published (id : Id) (registry : List ResourceScope) (s : Store) : Store :=
  Repository.prune id registry s.now (Repository.setScopeRegistry id registry s)

theorem replaceResourceDiscovery_apply :
    Repository.replaceResourceDiscovery id registry s = (.ok true, s.published id registry) := rfl

theorem replaceActiveDiscovery_apply :
    replaceActiveDiscovery id registry s = (.ok (), s.published id registry) := by
  rw [replaceActiveDiscovery, Command.bind_of_ok replaceResourceDiscovery_apply]
  exact Command.require_of rfl

theorem recordFailure_apply (e : Failure) : recordFailure id resource e s =
    (.error e, resource.scopeRegistry.elim s fun registry => s.published id registry) := by
  unfold recordFailure
  cases resource.scopeRegistry with
  | none => rfl
  | some registry => exact Command.bind_of_ok replaceResourceDiscovery_apply

theorem publishDiscovery_of_ok (h : discoverScopes d refreshMetadata resource = .ok registry) :
    publishDiscovery d refreshMetadata id resource s = (.ok (), s.published id registry) := by
  rw [publishDiscovery, h, Command.bind_of_ok (Command.ofExcept_eq_ok.mpr ⟨rfl, rfl⟩)]
  exact replaceActiveDiscovery_apply

theorem publishDiscovery_of_error {e : Failure}
    (h : discoverScopes d refreshMetadata resource = .error e) :
    publishDiscovery d refreshMetadata id resource s = (.error e, s) := by
  rw [publishDiscovery, h]
  exact Command.bind_of_error rfl

theorem getResource_of_found (h : s.findResource id = some resource) :
    getResource id s = (.ok resource, s) := by
  rw [getResource, Command.read_bind, h]
  rfl

theorem findResource_published (h : s.findResource id = some resource) :
    (s.published id registry).findResource id =
      some { resource with scopeRegistry := some registry } := by
  obtain ⟨hfound, hlive⟩ := Option.filter_eq_some_iff.mp h
  have hselected : Repository.live id resource = true := by
    rw [Repository.live, hlive, (Keyed.find_eq_some.mp hfound).2]
    simp
  have hrow : (s.published id registry).resources.find id =
      some { resource with scopeRegistry := some registry } := by
    change ((Repository.setScopeRegistry id registry s).resources.find id) = _
    rw [Repository.setScopeRegistry, Keyed.find_update, hfound, Option.map_some, if_pos hselected]
  exact Option.filter_eq_some_iff.mpr ⟨hrow, hlive⟩

/-- What a refresh can do to an enabled resource: publish a registry, or fail and write the stored
one again. -/
theorem refresh_enabled (h : s.findResource id = some resource)
    (henabled : resource.enabled = true) :
    (∃ registry, refreshResourceScopeRegistry d refreshMetadata id s =
      (.ok { resource with scopeRegistry := some registry }, s.published id registry)) ∨
    ∃ e, refreshResourceScopeRegistry d refreshMetadata id s =
      (.error e, resource.scopeRegistry.elim s fun registry => s.published id registry) := by
  have hget : ∀ registry, getResource id (s.published id registry) =
      (.ok { resource with scopeRegistry := some registry }, s.published id registry) :=
    fun registry => getResource_of_found (findResource_published h)
  rw [refreshResourceScopeRegistry, Command.bind_of_ok (getResource_of_found h),
    Command.bind_of_ok (Command.require_of henabled)]
  split
  · rw [Command.bind_of_ok replaceActiveDiscovery_apply]
    exact .inl ⟨realmrootRegistry, hget _⟩
  · cases hdiscovery : discoverScopes d refreshMetadata resource with
    | ok registry =>
      refine .inl ⟨registry, ?_⟩
      rw [Command.bind_of_ok (Command.catching_of_ok (publishDiscovery_of_ok hdiscovery)), hget]
    | error e =>
      refine .inr ⟨e, ?_⟩
      have hcaught : Command.catching (publishDiscovery d refreshMetadata id resource)
          (recordFailure id resource) s = recordFailure id resource e s :=
        Command.catching_of_error (publishDiscovery_of_error hdiscovery)
      exact Command.bind_of_error (hcaught.trans (recordFailure_apply e))

/-- A resource that is not enabled is left alone. -/
theorem refresh_disabled (h : ∀ resource, s.findResource id = some resource →
    resource.enabled ≠ true) : ∃ e, refreshResourceScopeRegistry d refreshMetadata id s =
      (.error e, s) := by
  rw [refreshResourceScopeRegistry]
  cases hfound : s.findResource id with
  | none =>
    have hmissing : getResource id s = (.error (notFound "API resource was not found."), s) := by
      rw [getResource, Command.read_bind, hfound]
      rfl
    exact ⟨_, Command.bind_of_error hmissing⟩
  | some resource =>
    rw [Command.bind_of_ok (getResource_of_found hfound)]
    exact ⟨_, Command.bind_of_error (Command.require_of_not (h resource hfound))⟩

structure SameRegistry (stored refreshed : Option (List ResourceScope)) : Prop where
  isSome : stored.isSome = refreshed.isSome
  scopes : ∀ scope, scope ∈ stored.getD [] ↔ scope ∈ refreshed.getD []

theorem SameRegistry.refl (stored : Option (List ResourceScope)) : SameRegistry stored stored :=
  ⟨rfl, fun _ => .rfl⟩

def Store.storedRegistry (id : Id) (s : Store) : Option (List ResourceScope) :=
  (s.findResource id).bind (·.scopeRegistry)

structure Preserves (s t : Store) (id : Id) : Prop where
  entitlements : ∀ e ∈ s.entitlements, e.active s.now = true →
    e ∈ t.entitlements ∧ e.active t.now = true
  registry : SameRegistry (s.storedRegistry id) (t.storedRegistry id)

/-- Every active entitlement on the resource is for a scope that is assigned. -/
def AllAssigned (s : Store) (id : Id) : Prop :=
  ∀ resource registry, s.findResource id = some resource → resource.enabled = true →
    resource.scopeRegistry = some registry →
    ∀ e ∈ s.entitlements, e.resourceServerId = id → e.active s.now = true →
      ⟨e.scope, .assigned⟩ ∈ registry

def YieldsStored (s : Store) (id : Id) (result : Except Failure ApiResource) : Prop :=
  ∀ resource, result = .ok resource → SameRegistry (s.storedRegistry id) resource.scopeRegistry

theorem Preserves.refl (s : Store) (id : Id) : Preserves s s id :=
  ⟨fun _ he hactive => ⟨he, hactive⟩, .refl _⟩

theorem mem_assigned {scope : String} :
    ((registry.filter fun x => x.grantMode = .assigned).map (·.value)).contains scope = true ↔
      ⟨scope, .assigned⟩ ∈ registry := by
  rw [List.contains_iff_mem, List.mem_map]
  constructor
  · rintro ⟨⟨value, mode⟩, hx, rfl⟩
    obtain ⟨hmem, hmode⟩ := List.mem_filter.mp hx
    obtain rfl : mode = .assigned := by simpa using hmode
    exact hmem
  · intro hmem
    exact ⟨⟨scope, .assigned⟩, List.mem_filter.mpr ⟨hmem, by simp⟩, rfl⟩

/-- The batch leaves an entitlement in force alone if and only if its scope is assigned. -/
theorem mem_published_iff {e : ScopeEntitlement} (he : e ∈ s.entitlements)
    (hopen : e.ended = none) :
    e ∈ (s.published id registry).entitlements ↔
      (e.resourceServerId = id → ⟨e.scope, .assigned⟩ ∈ registry) := by
  have hends : (e.resourceServerId == id &&
      !((registry.filter fun x => x.grantMode = .assigned).map (·.value)).contains e.scope &&
      e.ended.isNone) = true ↔ ¬(e.resourceServerId = id → ⟨e.scope, .assigned⟩ ∈ registry) := by
    rw [Bool.and_eq_true, Bool.and_eq_true, beq_iff_eq, Bool.not_eq_true', ← Bool.not_eq_true,
      mem_assigned, hopen]
    simp
  constructor
  · intro hmem
    by_contra hnot
    obtain ⟨e₀, _, hkept⟩ := mem_updateWhere.mp hmem
    split at hkept
    · rw [← hkept] at hopen
      cases hopen
    · rename_i hkeeps
      rw [hkept] at hkeeps
      exact hkeeps (hends.mpr hnot)
  · intro hassigned
    refine mem_updateWhere.mpr ⟨e, he, ?_⟩
    rw [if_neg fun h => hends.mp h hassigned]

theorem open_of_active {e : ScopeEntitlement} {now : ℕ} (h : e.active now = true) :
    e.ended = none := by
  rw [ScopeEntitlement.active, Bool.and_eq_true] at h
  simpa using h.1

/-- Writing a registry with the scopes that are stored. -/
theorem preserves_published_iff {stored : List ResourceScope}
    (hfound : s.findResource id = some resource) (henabled : resource.enabled = true)
    (hstored : resource.scopeRegistry = some stored)
    (hsame : SameRegistry (some stored) (some registry)) :
    Preserves s (s.published id registry) id ↔ AllAssigned s id := by
  have hscopes : ∀ scope, scope ∈ stored ↔ scope ∈ registry := hsame.scopes
  constructor
  · intro h resource' registry' hfound' _ hstored' e he hon hactive
    obtain rfl := Option.some.inj (hfound.symm.trans hfound')
    obtain rfl := Option.some.inj (hstored.symm.trans hstored')
    have hkept := (mem_published_iff he (open_of_active hactive)).mp (h.entitlements e he hactive).1
    exact (hscopes _).mpr (hkept hon)
  · intro h
    refine ⟨fun e he hactive => ⟨?_, hactive⟩, ?_⟩
    · refine (mem_published_iff he (open_of_active hactive)).mpr fun hon => ?_
      exact (hscopes _).mp (h resource stored hfound henabled hstored e he hon hactive)
    · rw [Store.storedRegistry, Store.storedRegistry, findResource_published hfound, hfound]
      change SameRegistry resource.scopeRegistry (some registry)
      rwa [hstored]

theorem allAssigned_of_unstored (h : ∀ resource, s.findResource id = some resource →
    resource.enabled = true → resource.scopeRegistry = none) : AllAssigned s id := by
  intro resource registry hfound henabled hstored
  rw [h resource hfound henabled] at hstored
  cases hstored

/-- A refresh that yields the stored scopes, or fails, keeps every active entitlement if and only
if those on the resource are all for assigned scopes. -/
theorem refresh_preserves_iff
    (hyields : YieldsStored s id (refreshResourceScopeRegistry d refreshMetadata id s).1) :
    Preserves s (refreshResourceScopeRegistry d refreshMetadata id s).2 id ↔ AllAssigned s id := by
  by_cases hlive : ∃ resource, s.findResource id = some resource ∧ resource.enabled = true
  · obtain ⟨resource, hfound, henabled⟩ := hlive
    have hregistry : s.storedRegistry id = resource.scopeRegistry := by
      rw [Store.storedRegistry, hfound, Option.bind_some]
    rcases refresh_enabled (d := d) hfound henabled with ⟨registry, hrun⟩ | ⟨e, hrun⟩
    · rw [hrun] at hyields ⊢
      have hsame := hyields _ rfl
      rw [hregistry] at hsame
      cases hstored : resource.scopeRegistry with
      | none =>
        rw [hstored] at hsame
        cases hsame.isSome
      | some stored =>
        rw [hstored] at hsame
        exact preserves_published_iff hfound henabled hstored hsame
    · rw [hrun]
      cases hstored : resource.scopeRegistry with
      | none =>
        refine iff_of_true (.refl s id) (allAssigned_of_unstored fun resource' hfound' _ => ?_)
        obtain rfl := Option.some.inj (hfound.symm.trans hfound')
        exact hstored
      | some stored => exact preserves_published_iff hfound henabled hstored (.refl _)
  · have hdisabled : ∀ resource, s.findResource id = some resource → resource.enabled ≠ true :=
      fun resource hfound henabled => hlive ⟨resource, hfound, henabled⟩
    obtain ⟨e, hrun⟩ : ∃ e, refreshResourceScopeRegistry d refreshMetadata id s = (.error e, s) :=
      refresh_disabled hdisabled
    rw [hrun]
    exact iff_of_true (.refl s id) (allAssigned_of_unstored fun resource hfound henabled =>
      absurd henabled (hdisabled resource hfound))

namespace Sample

/-- The native resource of the deployment, with the entitlements that its Agents hold. -/
def refreshing (entitlements : List ScopeEntitlement) : Store :=
  { store with
    resources := ⟨[FlareAuth.Sample.notes], List.nodup_singleton _⟩
    entitlements := entitlements }

def refresh : Governance ApiResource :=
  refreshResourceScopeRegistry discovery (fun _ => .ok ()) "notes"

end Sample

/-- The refresh of a resource with assigned scopes only keeps the entitlement of the user. -/
theorem refresh_preserves_sample :
    Sample.granted.entitlements.length = 1 ∧ YieldsStored Sample.granted "notes"
      (Sample.refresh Sample.granted).1 ∧
    Preserves Sample.granted (Sample.refresh Sample.granted).2 "notes" := by
  have hgranted : Sample.granted.entitlements.length = 1 := by decide +kernel
  have hregistry : Sample.granted.storedRegistry "notes" = some [⟨"read", .assigned⟩] := by
    decide +kernel
  have hassigned : ∀ e ∈ Sample.granted.entitlements, e.scope = "read" := by decide +kernel
  have hstored : ∀ resource, (Sample.refresh Sample.granted).1 = .ok resource →
      resource.scopeRegistry = Sample.notes.scopeRegistry := by
    intro resource hok
    have hrun : (match (Sample.refresh Sample.granted).1 with
        | .ok resource => resource.scopeRegistry == Sample.notes.scopeRegistry
        | .error _ => false) = true := by
      decide +kernel
    rw [hok] at hrun
    simpa using hrun
  have hyields : YieldsStored Sample.granted "notes" (Sample.refresh Sample.granted).1 := by
    intro resource hok
    rw [hstored resource hok, hregistry]
    exact .refl _
  refine ⟨hgranted, hyields, (refresh_preserves_iff hyields).mpr ?_⟩
  intro resource registry hfound _ hstored e he _ _
  rw [Store.storedRegistry, hfound, Option.bind_some, hstored] at hregistry
  rw [Option.some.inj hregistry, hassigned e he]
  exact List.mem_singleton_self _

/-- An Agent's request for an automatic scope is approved at once, and the next refresh ends the
entitlement although the registry stays as it is. -/
theorem automatic_entitlement_refreshed : ∃ pool : AccessPool, AccessReachable pool ∧
    ∃ resource t, Sample.refresh (Sample.refreshing pool.store.entitlements) = (.ok resource, t) ∧
      resource.scopeRegistry = FlareAuth.Sample.notes.scopeRegistry ∧
      ¬Preserves (Sample.refreshing pool.store.entitlements) t "notes" := by
  have hrun : (FlareAuth.Sample.run (Move.alone 0 (.createAgentAccessRequest
      FlareAuth.Sample.agent ⟨"notes", ["read"], some [FlareAuth.Sample.authority], none⟩) 35)).any
      (fun pool =>
        let s := Sample.refreshing pool.store.entitlements
        match Sample.refresh s with
        | (.ok resource, t) => resource.scopeRegistry == FlareAuth.Sample.notes.scopeRegistry &&
          s.entitlements.any fun e => e.active s.now && t.entitlements.all fun f => f.ended.isSome
        | (.error _, _) => false) = true := by
    decide +kernel
  obtain ⟨pool, hpool, hcheck⟩ := FlareAuth.Sample.reachable_of_run hrun
  refine ⟨pool, hpool, ?_⟩
  dsimp only at hcheck
  rcases h : Sample.refresh (Sample.refreshing pool.store.entitlements) with ⟨_ | resource, t⟩
  · rw [h] at hcheck
    cases hcheck
  · rw [h] at hcheck
    simp only [Bool.and_eq_true, beq_iff_eq, List.any_eq_true, List.all_eq_true] at hcheck
    obtain ⟨hregistry, e, he, hactive, hended⟩ := hcheck
    refine ⟨resource, t, rfl, hregistry, fun hpreserves => ?_⟩
    have hkept := (hpreserves.entitlements e he hactive).1
    have hsome := hended e hkept
    rw [open_of_active hactive] at hsome
    cases hsome

end FlareAuth.ResourceServers
