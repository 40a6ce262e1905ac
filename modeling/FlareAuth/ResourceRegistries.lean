import FlareAuth.Concurrent.Batch
import FlareAuth.Concurrent.Pool
import FlareAuth.DiscoveryRefresh

/-!
# Resource Servers that are updated while others are at work

An update, a refresh and a deletion each take several steps. Any of them may fail, and
other calls may come between two of them: a batch writes what was computed from the
tables as they were read before it.
-/

namespace FlareAuth.ResourceRegistries

open Concurrent Procedure Relational
open ResourceServers (UpdateApiResource Discovery ResourceScopesConfiguration ApplicationConsent)

abbrev Tables := ResourceServers.Store

structure RegistryDiscovery where
  sourceUrl : String
  lastError : Option Failure

/-- `discovery` belongs to the scope registries of the resources. -/
structure Store where
  tables : Tables
  discovery : Id → Option RegistryDiscovery

structure Found where
  resource : ApiResource
  discovery : Option RegistryDiscovery

def Store.findResource (s : Store) (id : Id) : Option Found :=
  (s.tables.findResource id).map fun resource => ⟨resource, s.discovery id⟩

abbrev StoreBatch := Batch Store Failure

namespace Repository

open ResourceServers.Repository (live updateRow withoutResource declaredConfigurations oidcScopes
  setScopeRegistry)

def onTables {α : Type} (batch : ResourceServers.StoreBatch α) : StoreBatch α := fun s =>
  match batch s.tables with
  | .ok (value, tables) => .ok (value, { s with tables := tables })
  | .error failure => .error failure

/-- Applications get new scopes, computed from what was read, where these are not the old ones. -/
def setApplications (before : Tables)
    (scopes : ResourceServers.Application → List ResourceScopesConfiguration)
    (s : Tables) : Tables :=
  { s with
    applications := s.applications.update
      (fun a => (before.applications.find a.id).any fun read => scopes read != read.resourceScopes)
      (fun a => { a with
        resourceScopes := ((before.applications.find a.id).map scopes).getD a.resourceScopes })
      fun _ => rfl }

def setRoles (before : Tables) (keeps : OrganizationRole → RoleScope → Bool)
    (s : Tables) : Tables :=
  { s with
    organizationRoles := s.organizationRoles.map fun r =>
      match before.organizationRoles.find? fun read =>
        read.organizationId == r.organizationId && read.role == r.role with
      | some read =>
        let permission := read.permission.filter (keeps read)
        if permission.length = read.permission.length then r
        else { r with permission := permission }
      | none => r }

/-- Entitlements that were read as active end. -/
def endEntitlements (before : Tables) (ends : ScopeEntitlement → Bool) (s : Tables) : Tables :=
  { s with
    entitlements := updateWhere
      (fun e => before.entitlements.any fun read =>
        read.id == e.id && ends read && read.ended.isNone)
      (fun e => { e with ended := some (before.now, .revoked) }) s.entitlements }

def setConsents (before : Tables) (concerns : ApplicationConsent → Bool)
    (change : ApplicationConsent → ApplicationConsent → ApplicationConsent) (s : Tables) : Tables :=
  { s with
    consents := s.consents.map fun c =>
      match before.consents.find? fun read => read.id == c.id && concerns read with
      | some read => change read c
      | none => c }

/-- What a resource that turns private takes from everyone outside its owner. -/
def confine (before : Tables) (id ownerOrganizationId : Id) (s : Tables) : Tables :=
  setConsents before
    (fun c => c.resourceServerId == some id && !before.isMember ownerOrganizationId c.userId &&
      c.revokedAt.isNone)
    (fun _ c => { c with revokedAt := some before.now }) <|
  setRoles before
    (fun r x => r.organizationId == ownerOrganizationId || x.resourceId != id) <|
  endEntitlements before
    (fun e => e.resourceServerId == id && !before.remainsVisible ownerOrganizationId e) <|
  setApplications before
    (fun a => if a.ownerOrganizationId == ownerOrganizationId then a.resourceScopes
      else withoutResource id a.resourceScopes) s

def updateAndConfine (id : Id) (patch : UpdateApiResource) (ownerOrganizationId : Id)
    (before : Tables) : StoreBatch Bool := onTables do
  let updated ← updateRow id patch
  Batch.modify (confine before id ownerOrganizationId)
  return updated

/-- What a new scope registry ends everywhere. -/
def prune (before : Tables) (id : Id) (registry : List ResourceScope) (s : Tables) : Tables :=
  let declared := registry.map (·.value)
  let assigned := (registry.filter fun x => x.grantMode = .assigned).map (·.value)
  setConsents before (fun c => c.resourceServerId == some id)
    (fun read c =>
      let scopes := read.scopes.filter fun x => oidcScopes.contains x || declared.contains x
      if scopes.isEmpty then { c with revokedAt := some before.now }
      else { c with scopes := scopes }) <|
  setRoles before (fun _ x => x.resourceId != id || assigned.contains x.scope) <|
  endEntitlements before (fun e => e.resourceServerId == id && !assigned.contains e.scope) <|
  setApplications before (fun a => declaredConfigurations id declared a.resourceScopes) s

def replaceResourceDiscovery (id : Id) (registry : List ResourceScope)
    (discovery : Option RegistryDiscovery) (before : Tables) : StoreBatch Unit :=
  Batch.modify fun s => {
    tables := prune before id registry (setScopeRegistry id registry s.tables)
    discovery := fun k =>
      if k = id ∧ s.tables.resources.rows.any (live id) then discovery else s.discovery k }

theorem withoutResource_id (id : Id) (a : ResourceServers.Application) :
    ({ a with resourceScopes := withoutResource id a.resourceScopes } :
      ResourceServers.Application).id = a.id := rfl

def deleteResource (id : Id) : StoreBatch Unit :=
  Batch.modify fun s => { s with tables := { s.tables with
  resources := s.tables.resources.update (live id)
    (fun r => { r with enabled := false, deletedAt := some s.tables.now }) fun _ => rfl
  entitlements := updateWhere (fun e => e.resourceServerId == id && e.ended.isNone)
    (fun e => { e with ended := some (s.tables.now, .revoked) }) s.tables.entitlements
  consents := updateWhere (fun c => c.resourceServerId == some id && c.revokedAt.isNone)
    (fun c => { c with revokedAt := some s.tables.now }) s.tables.consents
  applications := s.tables.applications.update (fun _ => true)
    (fun a => { a with resourceScopes := withoutResource id a.resourceScopes })
    (withoutResource_id id)
  organizationRoles := s.tables.organizationRoles.map fun r =>
    { r with permission := r.permission.filter fun x => x.resourceId != id } } }

section Unchanged

variable {before s : Tables} {id ownerOrganizationId : Id}

/-- The keys of the tables. -/
structure RowsDistinct (s : Tables) : Prop where
  entitlements : (s.entitlements.map (·.id)).Nodup
  organizationRoles : (s.organizationRoles.map fun r => (r.organizationId, r.role)).Nodup
  consents : (s.consents.map (·.id)).Nodup

/-- The tables that a batch was computed from are still what they were. -/
structure SameRows (before s : Tables) : Prop where
  applications : s.applications = before.applications
  entitlements : s.entitlements = before.entitlements
  organizationRoles : s.organizationRoles = before.organizationRoles
  consents : s.consents = before.consents

theorem setApplications_eq (h : s.applications = before.applications)
    {p : ResourceServers.Application → Bool}
    {f : List ResourceScopesConfiguration → List ResourceScopesConfiguration} :
    setApplications before (fun a => if p a then f a.resourceScopes else a.resourceScopes) s =
      { s with
        applications := s.applications.update p
          (fun a => { a with resourceScopes := f a.resourceScopes }) fun _ => rfl } := by
  unfold setApplications
  congr 1
  refine Keyed.update_congr fun a ha => ?_
  have hfound : before.applications.find a.id = some a :=
    h ▸ Keyed.find_eq_some.mpr ⟨ha, rfl⟩
  rw [hfound]
  by_cases hp : p a = true
  · by_cases hsame : f a.resourceScopes = a.resourceScopes
    · simp [hp, hsame]
    · simp [hp, hsame]
  · simp [hp]

theorem endEntitlements_eq (h : s.entitlements = before.entitlements)
    (hdistinct : (before.entitlements.map (·.id)).Nodup) (ends : ScopeEntitlement → Bool) :
    endEntitlements before ends s =
      { s with
        entitlements := updateWhere (fun e => ends e && e.ended.isNone)
          (fun e => { e with ended := some (before.now, .revoked) }) s.entitlements } := by
  unfold endEntitlements updateWhere
  congr 1
  refine List.map_congr_left fun e he => ?_
  have hselected : (before.entitlements.any fun read =>
      read.id == e.id && ends read && read.ended.isNone) = (ends e && e.ended.isNone) := by
    rw [h] at he
    rw [Bool.eq_iff_iff, List.any_eq_true]
    constructor
    · rintro ⟨read, hread, hends⟩
      rw [Bool.and_assoc, Bool.and_eq_true, beq_iff_eq] at hends
      exact eq_of_key_eq hdistinct hread he hends.1 ▸ hends.2
    · intro hends
      refine ⟨e, he, ?_⟩
      rw [Bool.and_assoc, beq_self_eq_true, Bool.true_and]
      exact hends
  simp only [hselected]

theorem setRoles_eq (h : s.organizationRoles = before.organizationRoles)
    (hdistinct : (before.organizationRoles.map fun r => (r.organizationId, r.role)).Nodup)
    (keeps : OrganizationRole → RoleScope → Bool) :
    setRoles before keeps s =
      { s with
        organizationRoles := s.organizationRoles.map fun r =>
          { r with permission := r.permission.filter (keeps r) } } := by
  unfold setRoles
  congr 1
  refine List.map_congr_left fun r hr => ?_
  have hfound : (before.organizationRoles.find? fun read =>
      read.organizationId == r.organizationId && read.role == r.role) = some r := by
    rw [h] at hr
    refine find?_eq_some_of_unique hr (by simp) fun read hread hsame => ?_
    rw [Bool.and_eq_true, beq_iff_eq, beq_iff_eq] at hsame
    exact eq_of_key_eq hdistinct hread hr (Prod.ext hsame.1 hsame.2)
  rw [hfound]
  dsimp only
  split
  · rename_i hlength
    rw [List.filter_eq_self.mpr (List.length_filter_eq_length_iff.mp hlength)]
  · rfl

theorem setConsents_eq (h : s.consents = before.consents)
    (hdistinct : (before.consents.map (·.id)).Nodup) (concerns : ApplicationConsent → Bool)
    (change : ApplicationConsent → ApplicationConsent → ApplicationConsent) :
    setConsents before concerns change s =
      { s with consents := updateWhere concerns (fun c => change c c) s.consents } := by
  unfold setConsents updateWhere
  congr 1
  refine List.map_congr_left fun c hc => ?_
  rw [h] at hc
  have honly : ∀ read ∈ before.consents, (read.id == c.id && concerns read) = true → read = c := by
    intro read hread hsame
    rw [Bool.and_eq_true, beq_iff_eq] at hsame
    exact eq_of_key_eq hdistinct hread hc hsame.1
  by_cases hconcerns : concerns c = true
  · rw [find?_eq_some_of_unique hc (by simp [hconcerns]) honly, if_pos hconcerns]
  · have hnone : (before.consents.find? fun read => read.id == c.id && concerns read) = none := by
      refine List.find?_eq_none.mpr fun read hread hsame => ?_
      obtain rfl := honly read hread hsame
      rw [Bool.and_eq_true] at hsame
      exact hconcerns hsame.2
    rw [hnone, if_neg hconcerns]

/-- On the tables that it was computed from, a batch does what the update that runs alone does. -/
theorem confine_eq (hdistinct : RowsDistinct before) (h : SameRows before s) :
    confine before id ownerOrganizationId s =
      ResourceServers.Repository.confine before id ownerOrganizationId before.now s := by
  have hscopes : (fun a : ResourceServers.Application =>
      if a.ownerOrganizationId == ownerOrganizationId then a.resourceScopes
      else withoutResource id a.resourceScopes) = fun a =>
        if a.ownerOrganizationId != ownerOrganizationId then withoutResource id a.resourceScopes
        else a.resourceScopes := by
    funext a
    by_cases howner : a.ownerOrganizationId = ownerOrganizationId <;> simp [howner]
  unfold confine
  rw [hscopes, setApplications_eq h.applications,
    endEntitlements_eq ?entitlements hdistinct.entitlements,
    setRoles_eq ?roles hdistinct.organizationRoles, setConsents_eq ?consents hdistinct.consents]
  case entitlements => exact h.entitlements
  case roles => exact h.organizationRoles
  case consents => exact h.consents
  have hroles : (s.organizationRoles.map fun r => { r with
      permission := r.permission.filter fun x =>
        r.organizationId == ownerOrganizationId || x.resourceId != id }) =
      updateWhere (fun r => r.organizationId != ownerOrganizationId)
        (fun r => { r with permission := r.permission.filter fun x => x.resourceId != id })
        s.organizationRoles := by
    refine List.map_congr_left fun r _ => ?_
    by_cases howner : r.organizationId = ownerOrganizationId
    · rw [List.filter_eq_self.mpr (by simp [howner]), if_neg (by simp [howner])]
    · rw [if_pos (by simpa using howner), beq_eq_false_iff_ne.mpr howner]
      rfl
  simp only [hroles]
  rfl

theorem prune_eq (hdistinct : RowsDistinct before) (h : SameRows before s)
    (registry : List ResourceScope) :
    prune before id registry s =
      ResourceServers.Repository.prune id registry before.now s := by
  have hscopes : (fun a : ResourceServers.Application =>
      declaredConfigurations id (registry.map (·.value)) a.resourceScopes) = fun a =>
        if (fun _ => true) a then
          declaredConfigurations id (registry.map (·.value)) a.resourceScopes
        else a.resourceScopes := rfl
  unfold prune
  dsimp only
  rw [hscopes, setApplications_eq h.applications,
    endEntitlements_eq ?entitlements hdistinct.entitlements,
    setRoles_eq ?roles hdistinct.organizationRoles, setConsents_eq ?consents hdistinct.consents]
  case entitlements => exact h.entitlements
  case roles => exact h.organizationRoles
  case consents => exact h.consents
  rfl

/-- What the update of the row comes to. -/
theorem updateRow_cases (id : Id) (patch : UpdateApiResource) (s : Tables) :
    (∃ failure, updateRow id patch s = .error failure) ∨
      updateRow id patch s =
        .ok (s.resources.rows.any (live id),
          ResourceServers.Repository.patchResource id patch s) := by
  unfold updateRow
  dsimp only
  split
  · exact .inl ⟨_, rfl⟩
  · exact .inr rfl

theorem updateAndConfine_eq {s : Store} (hdistinct : RowsDistinct s.tables)
    (patch : UpdateApiResource) :
    updateAndConfine id patch ownerOrganizationId s.tables s =
      onTables (do
        let updated ← updateRow id patch
        Batch.modify (ResourceServers.Repository.confine s.tables id ownerOrganizationId
          s.tables.now)
        return updated) s := by
  have hsame : SameRows s.tables (ResourceServers.Repository.patchResource id patch s.tables) :=
    ⟨rfl, rfl, rfl, rfl⟩
  unfold updateAndConfine onTables
  rcases updateRow_cases id patch s.tables with ⟨failure, hrun⟩ | hrun
  · rw [Batch.bind_of_error hrun, Batch.bind_of_error hrun]
  · rw [Batch.bind_of_ok hrun, Batch.bind_of_ok hrun]
    change Except.ok (_, { s with tables := confine _ _ _ _ }) = _
    rw [confine_eq hdistinct hsame]
    rfl

theorem replaceResourceDiscovery_eq {s : Store} (hdistinct : RowsDistinct s.tables)
    (registry : List ResourceScope) (discovery : Option RegistryDiscovery) :
    ((replaceResourceDiscovery id registry discovery s.tables).settle s).tables =
      ResourceServers.Repository.prune id registry s.tables.now
        (setScopeRegistry id registry s.tables) :=
  have hsame : SameRows s.tables (setScopeRegistry id registry s.tables) := ⟨rfl, rfl, rfl, rfl⟩
  prune_eq hdistinct hsame registry

end Unchanged

end Repository

/-- `fault` is an operation that fails. -/
inductive Operation where
  | findResource (id : Id)
  | findOrganization (id : Id)
  | findPlatformOrganization
  | readTables (id : Id)
  | updateRow (id : Id) (patch : UpdateApiResource)
  | updateAndConfine (id : Id) (patch : UpdateApiResource) (ownerOrganizationId : Id)
      (before : Tables)
  | replaceResourceDiscovery (id : Id) (registry : List ResourceScope)
      (discovery : Option RegistryDiscovery) (before : Tables)
  | deleteResource (id : Id)
  | fault

def Operation.perform : Operation → Store → Store
  | .updateRow id patch, s =>
    (Repository.onTables (ResourceServers.Repository.updateRow id patch)).settle s
  | .updateAndConfine id patch ownerOrganizationId before, s =>
    (Repository.updateAndConfine id patch ownerOrganizationId before).settle s
  | .replaceResourceDiscovery id registry discovery before, s =>
    (Repository.replaceResourceDiscovery id registry discovery before).settle s
  | .deleteResource id, s => (Repository.deleteResource id).settle s
  | _, s => s

instance : Operational Operation Store := ⟨Operation.perform⟩

abbrev Governance := Procedure Store Operation Failure

/-- The operations of a call, each of which may fail. -/
inductive Stage where
  | find
  | owner
  | platform
  | readRow
  | updateRow
  | readTables
  | replaceDiscovery
  | readTablesAgain
  | recordFailure
  | findAgain
  deriving DecidableEq

/-- With what each operation of a call fails, if it does. -/
abbrev Faults := Stage → Option Failure

section Usecases

variable {α : Type}

def attempt (fault : Option Failure) (p : Governance α) : Governance α :=
  match fault with
  | none => p
  | some failure => Procedure.step .fault fun _ => fail failure

def commit (op : Operation) (batch : StoreBatch α) : Governance α :=
  Procedure.step op fun s => Procedure.ofExcept (batch.outcome s)

variable (faults : Faults)

def getResource (fault : Option Failure) (id : Id) : Governance Found := do
  let found ← attempt fault (Procedure.query (.findResource id) (·.findResource id))
  orThrow found (notFound "API resource was not found.")

def requireActiveOrganization (id : Id) : Governance Unit := do
  let organization ← attempt (faults .owner) (Procedure.query (.findOrganization id)
    fun s => s.tables.organizations.find? fun o => o.id = id)
  let organization ← orThrow organization (notFound "Organization was not found.")
  require (!organization.disabled) (badRequest "Organization must be active.")

def requirePlatformOrganization : Governance Organization := do
  let organization ← attempt (faults .platform) (Procedure.query .findPlatformOrganization
    fun s => s.tables.organizations.find? fun o => o.slug = "realmroot")
  orThrow organization (.error "The built-in platform Organization is unavailable.")

def requireNewOwner (ownerOrganizationId : Option Id) : Governance Unit :=
  match ownerOrganizationId.filter (· ≠ "") with
  | some organizationId => requireActiveOrganization faults organizationId
  | none => pure ()

def requireExternalOwner (resource : ApiResource) (ownerOrganizationId : Id) : Governance Unit :=
  match resource.authorizationModel with
  | .external => do
    let platform ← requirePlatformOrganization faults
    require (ownerOrganizationId = platform.id)
      (badRequest
        "External Resource Servers must be owned by the built-in platform Organization.")
  | .native => pure ()

namespace Repository

def updateResource (id : Id) (patch : UpdateApiResource) : Governance Bool := do
  if patch.visibility ≠ some .privateResource then
    attempt (faults .updateRow)
      (commit (.updateRow id patch) (onTables (ResourceServers.Repository.updateRow id patch)))
  else
    let before ← attempt (faults .readRow) (Procedure.query (.readTables id) (·.tables))
    match before.resources.find id with
    | none => return false
    | some resource =>
      let ownerOrganizationId := patch.ownerOrganizationId.getD resource.ownerOrganizationId
      attempt (faults .updateRow) (commit (.updateAndConfine id patch ownerOrganizationId before)
        (updateAndConfine id patch ownerOrganizationId before))

def publish (readFault writeFault : Option Failure) (id : Id) (registry : List ResourceScope)
    (discovery : Option RegistryDiscovery) : Governance Unit := do
  let before ← attempt readFault (Procedure.query (.readTables id) (·.tables))
  attempt writeFault (commit (.replaceResourceDiscovery id registry discovery before)
    (replaceResourceDiscovery id registry discovery before))

end Repository

/-- Whether an update discovers the scopes again. -/
def synchronizes (resource : ApiResource) (input : UpdateApiResource) : Bool :=
  input.enabled.getD resource.enabled &&
    (input.enabled == some true || input.resourceUrl.isSome || input.connectorId.isSome)

/-- Where the registry of an update comes from: the resource as it will be, or the stored one. -/
def updatedDiscovery (found : Found) (input : UpdateApiResource) : Option RegistryDiscovery :=
  if synchronizes found.resource input then
    some ⟨input.resourceUrl.getD found.resource.resourceUrl, none⟩
  else found.discovery

def publishUpdated (id : Id) (discovery : Option RegistryDiscovery) :
    Option (List ResourceScope) → Governance Unit
  | some registry =>
    Repository.publish (faults .readTables) (faults .replaceDiscovery) id registry discovery
  | none => pure ()

def updateResource (d : Discovery) (id : Id) (input : UpdateApiResource) : Governance Found := do
  let found ← getResource (faults .find) id
  require (!found.resource.isRealmroot)
    (badRequest "The Realmroot Resource Server is system-managed.")
  Procedure.ofExcept (input.resourceUrl.elim (.ok ()) d.validateResourceUrl)
  requireNewOwner faults input.ownerOrganizationId
  requireExternalOwner faults found.resource
    (input.ownerOrganizationId.getD found.resource.ownerOrganizationId)
  let changes ← Procedure.ofExcept (ResourceServers.resourceChanges d found.resource input)
  let updated ← Repository.updateResource faults id changes.1
  require (updated = true) (notFound "API resource was not found.")
  publishUpdated faults id (updatedDiscovery found input) changes.2
  getResource (faults .findAgain) id

/-- The stored registry is written back, with the error in it. -/
def recordFailure (id : Id) (found : Found) (failure : Failure) : Governance Unit := do
  match found.resource.scopeRegistry with
  | some registry =>
    Repository.publish (faults .readTablesAgain) (faults .recordFailure) id registry
      (found.discovery.map fun discovery => { discovery with lastError := some failure })
    fail failure
  | none => fail failure

def publishDiscovered (d : Discovery) (refreshDynamicConnectorMetadata : Id → Except Failure Unit)
    (id : Id) (found : Found) : Governance Unit := do
  let registry ← Procedure.ofExcept
    (ResourceServers.discoverScopes d refreshDynamicConnectorMetadata found.resource)
  Repository.publish (faults .readTables) (faults .replaceDiscovery) id registry
    (some ⟨found.resource.resourceUrl, none⟩)

def refreshResourceScopeRegistry (d : Discovery)
    (refreshDynamicConnectorMetadata : Id → Except Failure Unit) (id : Id) : Governance Found := do
  let found ← getResource (faults .find) id
  require (found.resource.enabled = true)
    (badRequest "Resource Server must be active before synchronizing scopes.")
  if found.resource.isRealmroot then
    Repository.publish (faults .readTables) (faults .replaceDiscovery) id
      ResourceServers.realmrootRegistry (some ⟨found.resource.resourceUrl, none⟩)
    getResource (faults .findAgain) id
  else
    (publishDiscovered faults d refreshDynamicConnectorMetadata id found).tryCatch
      (recordFailure faults id found)
    getResource (faults .findAgain) id

def deleteResource (id : Id) : Governance Unit := do
  let found ← getResource (faults .find) id
  require (!found.resource.isRealmroot)
    (badRequest "The Realmroot Resource Server is system-managed.")
  let active ← attempt (faults .findAgain) (Procedure.query (.findResource id) (·.findResource id))
  require (active.isSome = true) (notFound "API resource was not found.")
  attempt (faults .updateRow) (commit (.deleteResource id) (Repository.deleteResource id))

end Usecases

inductive Call where
  | updateResource (d : Discovery) (id : Id) (input : UpdateApiResource) (faults : Faults)
  | refreshResourceScopeRegistry (d : Discovery)
      (refreshDynamicConnectorMetadata : Id → Except Failure Unit) (id : Id) (faults : Faults)
  | deleteResource (id : Id) (faults : Faults)

def Call.program : Call → Governance Unit
  | .updateResource d id input faults => do
    let _ ← ResourceRegistries.updateResource faults d id input
  | .refreshResourceScopeRegistry d refreshDynamicConnectorMetadata id faults => do
    let _ ← ResourceRegistries.refreshResourceScopeRegistry faults d
      refreshDynamicConnectorMetadata id
  | .deleteResource id faults => ResourceRegistries.deleteResource faults id

abbrev RegistryPool := Pool Call Store Operation Failure Unit

end FlareAuth.ResourceRegistries
