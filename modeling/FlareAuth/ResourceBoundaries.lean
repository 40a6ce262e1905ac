import FlareAuth.AccessRuns
import FlareAuth.GrantStrength
import FlareAuth.ResourceServers

/-!
# The boundary of a private Resource Server

An update that sends the visibility `private` puts everything on the resource
inside the Organization that owns it afterwards. Any other update leaves it as
it was, whoever the owner is.
-/

namespace FlareAuth.ResourceServers

open Concurrent Relational

structure Confined (s : Store) (id organizationId : Id) : Prop where
  entitlements : ∀ e ∈ s.entitlements, e.resourceServerId = id → e.active s.now = true →
    s.remainsVisible organizationId e = true
  roles : ∀ r ∈ s.organizationRoles, (∃ x ∈ r.permission, x.resourceId = id) →
    r.organizationId = organizationId
  applicationScopes : ∀ a ∈ s.applications.rows,
    (∃ c ∈ a.resourceScopes, c.resourceServerId = id ∧ c.scopes ≠ []) →
    a.ownerOrganizationId = organizationId
  consents : ∀ c ∈ s.consents, c.resourceServerId = some id → c.revokedAt = none →
    s.isMember organizationId c.userId = true

variable {s t : Store} {id organizationId : Id}

/-- The resources themselves do not matter. -/
theorem confined_resources (resources : Keyed ApiResource.id) :
    Confined { s with resources := resources } id organizationId ↔ Confined s id organizationId :=
  ⟨fun h => ⟨h.entitlements, h.roles, h.applicationScopes, h.consents⟩,
    fun h => ⟨h.entitlements, h.roles, h.applicationScopes, h.consents⟩⟩

theorem isOwnApplication_update {p : Application → Bool} {f : Application → Application}
    (hf : ∀ a, (f a).id = a.id) (howner : ∀ a, (f a).ownerOrganizationId = a.ownerOrganizationId)
    (applicationId : Id) :
    ((s.applications.update p f hf).find applicationId).map (·.ownerOrganizationId) =
      (s.applications.find applicationId).map (·.ownerOrganizationId) := by
  rw [Keyed.find_update, Option.map_map]
  refine Option.map_congr fun a _ => ?_
  rw [Function.comp_apply]
  split
  · exact howner a
  · rfl

/-- Who belongs to an Organization depends on members, owners of Agents and of Applications. -/
theorem remainsVisible_congr (hmembers : t.members = s.members)
    (hidentities : t.identities = s.identities)
    (happlications : ∀ applicationId,
      (t.applications.find applicationId).map (·.ownerOrganizationId) =
        (s.applications.find applicationId).map (·.ownerOrganizationId))
    (e : ScopeEntitlement) :
    t.remainsVisible organizationId e = s.remainsVisible organizationId e := by
  have hmember : ∀ userId, t.isMember organizationId userId = s.isMember organizationId userId := by
    intro userId
    rw [Store.isMember, Store.isMember, hmembers]
  unfold Store.remainsVisible
  cases e.subject with
  | user userId _ => exact hmember userId
  | application applicationId =>
    dsimp only
    rw [Store.isOwnApplication, Store.isOwnApplication, happlications]
  | agent agentIdentityId =>
    dsimp only
    rw [Store.isMemberOwned, Store.isMemberOwned, hidentities]
    exact hmember _

section Confine

variable {now : ℕ}

theorem remainsVisible_confine (e : ScopeEntitlement) :
    (Repository.confine s id organizationId now s).remainsVisible organizationId e =
      s.remainsVisible organizationId e := by
  apply remainsVisible_congr
  · rfl
  · rfl
  · intro applicationId
    apply isOwnApplication_update <;> exact fun _ => rfl

/-- The batch of an update that turns the resource private. -/
theorem confined_confine :
    Confined (Repository.confine s id organizationId now s) id organizationId := by
  constructor
  · intro e he hresource hactive
    rw [remainsVisible_confine]
    obtain ⟨e₀, _, rfl⟩ := mem_updateWhere.mp he
    by_cases hends : (e₀.resourceServerId == id && !s.remainsVisible organizationId e₀ &&
        e₀.ended.isNone) = true
    · rw [if_pos hends] at hactive
      simp [ScopeEntitlement.active] at hactive
    · rw [if_neg hends] at hresource hactive ⊢
      have hopen : e₀.ended.isNone = true := by
        rw [ScopeEntitlement.active, Bool.and_eq_true] at hactive
        exact hactive.1
      simpa [hresource, hopen] using hends
  · rintro r hr ⟨x, hx, hid⟩
    obtain ⟨r₀, _, rfl⟩ := mem_updateWhere.mp hr
    split at hx
    · simp [hid] at hx
    · rename_i hnot
      rw [if_neg hnot]
      simpa using hnot
  · rintro a ha ⟨c, hc, hid, _⟩
    obtain ⟨a₀, _, rfl⟩ := mem_updateWhere.mp ha
    split at hc
    · simp [Repository.withoutResource, hid] at hc
    · rename_i hnot
      rw [if_neg hnot]
      simpa using hnot
  · intro c hc hresource hopen
    obtain ⟨c₀, _, rfl⟩ := mem_updateWhere.mp hc
    by_cases hends : (c₀.resourceServerId == some id && !s.isMember organizationId c₀.userId &&
        c₀.revokedAt.isNone) = true
    · rw [if_pos hends] at hopen
      cases hopen
    · rw [if_neg hends] at hresource hopen ⊢
      change s.isMember organizationId c₀.userId = true
      simpa [hresource, hopen] using hends

end Confine

section Prune

variable {registry : List ResourceScope} {now : ℕ}

theorem mem_declaredConfigurations {declared : List String}
    {scopes : List ResourceScopesConfiguration} {c : ResourceScopesConfiguration}
    (hc : c ∈ Repository.declaredConfigurations id declared scopes) :
    ∃ c₀ ∈ scopes, c₀.resourceServerId = c.resourceServerId ∧ c.scopes ⊆ c₀.scopes := by
  obtain ⟨hmem, _⟩ := List.mem_filter.mp hc
  obtain ⟨c₀, hc₀, rfl⟩ := List.mem_map.mp hmem
  refine ⟨c₀, hc₀, ?_⟩
  split
  · exact ⟨rfl, List.filter_subset_self _⟩
  · exact ⟨rfl, fun _ h => h⟩

theorem remainsVisible_prune (e : ScopeEntitlement) :
    (Repository.prune id registry now s).remainsVisible organizationId e =
      s.remainsVisible organizationId e := by
  apply remainsVisible_congr
  · rfl
  · rfl
  · intro applicationId
    apply isOwnApplication_update <;> exact fun _ => rfl

theorem consentKept_open {declared : List String} {c : ApplicationConsent}
    (h : (Repository.consentKept declared now c).revokedAt = none) :
    c.revokedAt = none ∧ (Repository.consentKept declared now c).userId = c.userId ∧
      (Repository.consentKept declared now c).resourceServerId = c.resourceServerId := by
  dsimp only [Repository.consentKept] at h ⊢
  split at h
  · cases h
  · rename_i hne
    rw [if_neg hne]
    exact ⟨h, rfl, rfl⟩

/-- A new scope registry only ends what was there. -/
theorem Confined.prune (h : Confined s id organizationId) :
    Confined (Repository.prune id registry now s) id organizationId := by
  constructor
  · intro e he hresource hactive
    rw [remainsVisible_prune]
    obtain ⟨e₀, he₀, rfl⟩ := mem_updateWhere.mp he
    by_cases hends : (e₀.resourceServerId == id &&
        !((registry.filter fun x => x.grantMode = .assigned).map (·.value)).contains e₀.scope &&
        e₀.ended.isNone) = true
    · rw [if_pos hends] at hactive
      simp [ScopeEntitlement.active] at hactive
    · rw [if_neg hends] at hresource hactive ⊢
      exact h.entitlements e₀ he₀ hresource hactive
  · rintro r hr ⟨x, hx, hid⟩
    obtain ⟨r₀, hr₀, rfl⟩ := List.mem_map.mp hr
    exact h.roles r₀ hr₀ ⟨x, List.mem_of_mem_filter hx, hid⟩
  · rintro a ha ⟨c, hc, hid, hne⟩
    obtain ⟨a₀, ha₀, rfl⟩ := mem_updateWhere.mp ha
    obtain ⟨c₀, hc₀, hid₀, hsub⟩ := mem_declaredConfigurations hc
    refine h.applicationScopes a₀ ha₀ ⟨c₀, hc₀, hid₀.trans hid, ?_⟩
    rintro hnil
    rw [hnil] at hsub
    exact hne (List.subset_nil.mp hsub)
  · intro c hc hresource hopen
    obtain ⟨c₀, hc₀, rfl⟩ := mem_updateWhere.mp hc
    by_cases hselected : (c₀.resourceServerId == some id) = true
    · rw [if_pos hselected] at hopen ⊢
      obtain ⟨hopen₀, huser, _⟩ := consentKept_open hopen
      rw [huser]
      exact h.consents c₀ hc₀ (by simpa using hselected) hopen₀
    · rw [if_neg hselected] at hresource
      simp [hresource] at hselected

end Prune

section Update

variable {d : Discovery} {input : UpdateApiResource} {resource : ApiResource}

theorem getResource_ok (h : getResource id s = (.ok resource, t)) :
    s.findResource id = some resource ∧ t = s := by
  obtain ⟨found, u, hread, h⟩ := Command.bind_eq_ok.mp h
  obtain ⟨rfl, rfl⟩ := Command.read_eq_ok.mp hread
  obtain ⟨hfound, rfl⟩ := Command.orThrow_eq_ok.mp h
  exact ⟨hfound, rfl⟩

theorem requireNewOwner_ok {owner : Option Id} (h : requireNewOwner owner s = (.ok (), t)) :
    t = s := by
  unfold requireNewOwner at h
  cases howner : owner.filter (· ≠ "") with
  | none =>
    rw [howner] at h
    exact (Command.pure_eq_ok.mp h).2.symm
  | some organizationId =>
    rw [howner] at h
    obtain ⟨_, u, hread, h⟩ := Command.bind_eq_ok.mp h
    obtain ⟨_, rfl⟩ := Command.read_eq_ok.mp hread
    obtain ⟨_, v, hfound, h⟩ := Command.bind_eq_ok.mp h
    obtain ⟨_, rfl⟩ := Command.orThrow_eq_ok.mp hfound
    exact (Command.require_eq_ok.mp h).2.symm

theorem requireExternalOwner_ok {owner : Id}
    (h : requireExternalOwner resource owner s = (.ok (), t)) : t = s := by
  unfold requireExternalOwner at h
  cases hmodel : resource.authorizationModel with
  | native =>
    rw [hmodel] at h
    exact (Command.pure_eq_ok.mp h).2.symm
  | external =>
    rw [hmodel] at h
    obtain ⟨_, u, hplatform, h⟩ := Command.bind_eq_ok.mp h
    obtain ⟨_, v, hread, hplatform⟩ := Command.bind_eq_ok.mp hplatform
    obtain ⟨_, rfl⟩ := Command.read_eq_ok.mp hread
    obtain ⟨_, rfl⟩ := Command.orThrow_eq_ok.mp hplatform
    exact (Command.require_eq_ok.mp h).2.symm

/-- The patch that is written keeps the owner and the visibility of the request. -/
theorem resourceChanges_patch {patch : UpdateApiResource} {registry : Option (List ResourceScope)}
    (h : resourceChanges d resource input = .ok (patch, registry)) :
    patch.visibility = input.visibility ∧
      patch.ownerOrganizationId = input.ownerOrganizationId := by
  simp only [resourceChanges, bind, Except.bind] at h
  split at h
  · cases h
  · split at h
    · cases h
    · split at h
      · cases h
      · obtain ⟨rfl, rfl⟩ := Prod.mk.inj (Except.ok.inj h)
        split
        · exact ⟨rfl, rfl⟩
        · exact ⟨rfl, rfl⟩

theorem publishRegistry_ok {registry : Option (List ResourceScope)}
    (h : publishRegistry id registry s = (.ok (), t)) :
    t = (registry.elim s fun scopes =>
      Repository.prune id scopes s.now (Repository.setScopeRegistry id scopes s)) := by
  cases registry with
  | none => exact (Command.pure_eq_ok.mp h).2.symm
  | some scopes =>
    obtain ⟨_, u, hreplace, h⟩ := Command.bind_eq_ok.mp h
    obtain ⟨_, rfl⟩ := Command.require_eq_ok.mp h
    obtain ⟨now, v, hread, hreplace⟩ := Command.bind_eq_ok.mp hreplace
    obtain ⟨rfl, rfl⟩ := Command.read_eq_ok.mp hread
    have hbatch := Command.atomic_eq_ok hreplace
    cases hbatch
    rfl

theorem updateRow_ok {patch : UpdateApiResource} {updated : Bool}
    (h : Repository.updateRow id patch s = .ok (updated, t)) :
    t = Repository.patchResource id patch s := by
  dsimp only [Repository.updateRow] at h
  split at h
  · cases h
  · cases h
    rfl

/-- What the update of the repository leaves: the patched row, and the batch if the patch sends
the visibility `private`. -/
theorem repository_updateResource_ok {patch : UpdateApiResource} {r : ApiResource}
    (hfound : s.resources.find id = some r)
    (h : Repository.updateResource id patch s = (.ok true, t)) :
    t = if patch.visibility = some .privateResource then
        Repository.confine s id (patch.ownerOrganizationId.getD r.ownerOrganizationId) s.now
          (Repository.patchResource id patch s)
      else Repository.patchResource id patch s := by
  unfold Repository.updateResource at h
  by_cases hprivate : patch.visibility = some .privateResource
  · rw [if_neg (by simpa using hprivate)] at h
    obtain ⟨before, u, hread, h⟩ := Command.bind_eq_ok.mp h
    obtain ⟨rfl, rfl⟩ := Command.read_eq_ok.mp hread
    rw [hfound] at h
    have hbatch := Command.atomic_eq_ok h
    obtain ⟨updated, v, hrow, hbatch⟩ := Batch.bind_eq_ok.mp hbatch
    rw [updateRow_ok hrow] at hbatch
    rw [if_pos hprivate]
    cases hbatch
    rfl
  · rw [if_pos hprivate] at h
    rw [if_neg hprivate]
    exact updateRow_ok (Command.atomic_eq_ok h)

/-- The parts of a successful update, in order. -/
theorem updateResource_ok (h : updateResource d id input s = (.ok resource, t)) :
    ∃ r changes u, s.findResource id = some r ∧ resourceChanges d r input = .ok changes ∧
      Repository.updateResource id changes.1 s = (.ok true, u) ∧
      publishRegistry id changes.2 u = (.ok (), t) ∧ t.findResource id = some resource := by
  obtain ⟨r, s₁, hget, h₁⟩ := Command.bind_eq_ok.mp h
  obtain ⟨hfound, rfl⟩ := getResource_ok hget
  obtain ⟨_, s₂, hmanaged, h₂⟩ := Command.bind_eq_ok.mp h₁
  obtain ⟨_, rfl⟩ := Command.require_eq_ok.mp hmanaged
  obtain ⟨_, s₃, hurl, h₃⟩ := Command.bind_eq_ok.mp h₂
  obtain ⟨_, rfl⟩ := Command.ofExcept_eq_ok.mp hurl
  obtain ⟨_, s₄, hnew, h₄⟩ := Command.bind_eq_ok.mp h₃
  obtain rfl := requireNewOwner_ok hnew
  obtain ⟨_, s₅, hexternal, h₅⟩ := Command.bind_eq_ok.mp h₄
  obtain rfl := requireExternalOwner_ok hexternal
  obtain ⟨changes, s₆, hchanges, h₆⟩ := Command.bind_eq_ok.mp h₅
  obtain ⟨hpure, rfl⟩ := Command.ofExcept_eq_ok.mp hchanges
  obtain ⟨updated, u, hupdate, h₇⟩ := Command.bind_eq_ok.mp h₆
  obtain ⟨_, s₇, hupdated, h₈⟩ := Command.bind_eq_ok.mp h₇
  obtain ⟨rfl, rfl⟩ := Command.require_eq_ok.mp hupdated
  obtain ⟨_, s₈, hpublish, h₉⟩ := Command.bind_eq_ok.mp h₈
  obtain ⟨hresult, rfl⟩ := getResource_ok h₉
  exact ⟨r, changes, u, hfound, hpure, hupdate, hpublish, hresult⟩

/-- The state before the update without what the scope registry that it publishes ends. -/
def Store.synchronized (d : Discovery) (id : Id) (input : UpdateApiResource) (s : Store) : Store :=
  match (s.findResource id).map fun r => resourceChanges d r input with
  | some (.ok (_, some registry)) => Repository.prune id registry s.now s
  | _ => s

theorem ownerOrganizationId_of_update {patch : UpdateApiResource}
    {registry : Option (List ResourceScope)} {r : ApiResource} {u : Store}
    (hfound : s.findResource id = some r)
    (hu : u.resources = (Repository.patchResource id patch s).resources)
    (ht : t = registry.elim u fun scopes =>
      Repository.prune id scopes u.now (Repository.setScopeRegistry id scopes u))
    (hresult : t.findResource id = some resource) :
    resource.ownerOrganizationId = patch.ownerOrganizationId.getD r.ownerOrganizationId := by
  obtain ⟨hr, hlive⟩ := Option.filter_eq_some_iff.mp hfound
  have hpatched : u.resources.find id = some (Repository.patched patch r) := by
    have hselected : Repository.live id r = true := by
      rw [Repository.live, hlive, (Keyed.find_eq_some.mp hr).2]
      simp
    rw [hu, Repository.patchResource, Keyed.find_update, hr, Option.map_some, if_pos hselected]
  obtain ⟨hfinal, _⟩ := Option.filter_eq_some_iff.mp hresult
  cases registry with
  | none =>
    subst ht
    obtain rfl := Option.some.inj (hpatched.symm.trans hfinal)
    rfl
  | some scopes =>
    have hfinal' : (Repository.setScopeRegistry id scopes u).resources.find id = some resource := by
      rw [ht] at hfinal
      exact hfinal
    rw [Repository.setScopeRegistry, Keyed.find_update, hpatched, Option.map_some] at hfinal'
    obtain rfl := Option.some.inj hfinal'
    split
    · rfl
    · rfl

/-- An update leaves everything on the resource inside its owner if and only if it sends the
visibility `private` or everything that it leaves alive was inside that owner before. -/
theorem updateResource_confines (h : updateResource d id input s = (.ok resource, t)) :
    Confined t id resource.ownerOrganizationId ↔ input.visibility = some .privateResource ∨
      Confined (s.synchronized d id input) id resource.ownerOrganizationId := by
  obtain ⟨r, ⟨patch, registry⟩, u, hfound, hchanges, hupdate, hpublish, hresult⟩ :=
    updateResource_ok h
  obtain ⟨hvisibility, _⟩ := resourceChanges_patch hchanges
  have ht := publishRegistry_ok hpublish
  have hu := repository_updateResource_ok (Option.filter_eq_some_iff.mp hfound).1 hupdate
  rw [← hvisibility]
  by_cases hprivate : patch.visibility = some .privateResource
  · rw [if_pos hprivate] at hu
    have howner := ownerOrganizationId_of_update hfound (by rw [hu]; rfl) ht hresult
    have hconfined : Confined u id resource.ownerOrganizationId := by
      rw [howner, hu]
      exact (confined_resources _).mpr confined_confine
    refine ⟨fun _ => .inl hprivate, fun _ => ?_⟩
    cases registry with
    | none => exact ht ▸ hconfined
    | some scopes =>
      rw [ht]
      exact ((confined_resources _).mpr hconfined).prune
  · rw [if_neg hprivate] at hu
    have hsame : Confined t id resource.ownerOrganizationId ↔
        Confined (s.synchronized d id input) id resource.ownerOrganizationId := by
      rw [Store.synchronized, hfound, Option.map_some, hchanges, ht, hu]
      cases registry with
      | none => exact confined_resources _
      | some scopes => exact confined_resources (s := Repository.prune id scopes s.now s) _
    rw [hsame]
    constructor
    · exact .inr
    · rintro (hsends | hbefore)
      · exact absurd hsends hprivate
      · exact hbefore

end Update

section Grants

open Procedure

variable {s : Store} {t t' : FlareAuth.Store} {existing input e : ScopeEntitlement} {now : ℕ}

theorem strengthenEntitlement_of_batch {lifetime : Option Lifetime} {hash : Digest String}
    {u : FlareAuth.Store} {found : Option ScopeEntitlement}
    (hrows : t.entitlements = s.entitlements) (hkeys : KeysUnique s.entitlements)
    (hmem : existing ∈ s.entitlements)
    (h : FlareAuth.Repository.strengthenEntitlement existing.id lifetime hash t =
      .ok (found, u)) :
    Repository.strengthenEntitlement existing lifetime hash s =
      .ok ({ existing with
        lifetime := lifetime.getD existing.lifetime, authorizationContextHash := hash },
        { s with entitlements := u.entitlements }) ∧
    found = some { existing with
      lifetime := lifetime.getD existing.lifetime, authorizationContextHash := hash } := by
  obtain ⟨hset, hfound⟩ := strengthenEntitlement_ok h
  rw [hrows] at hset
  have hlookup := lookup_updateWhere ScopeEntitlement.id (p := fun e => e.id == existing.id)
    (f := fun e => { e with
      lifetime := lifetime.getD e.lifetime, authorizationContextHash := hash }) (fun _ => rfl)
    (lookup_of_mem hkeys.1 hmem)
  rw [if_pos (beq_self_eq_true _), ← hset] at hlookup
  refine ⟨?_, hfound.trans hlookup⟩
  rw [hset]
  rfl

theorem replaceExpiredEntitlement_of_batch {id : Id} {u : FlareAuth.Store} {x : Unit}
    (hrows : t.entitlements = s.entitlements)
    (h : FlareAuth.Repository.replaceExpiredEntitlement id input now t = .ok (x, u)) :
    Repository.replaceExpiredEntitlement id input now s =
      .ok (input, { s with entitlements := u.entitlements }) := by
  have hset := replaceExpiredEntitlement_ok h
  rw [hrows] at hset
  have hunique : KeysUnique u.entitlements := by
    obtain ⟨_, v, _, hbatch⟩ := Batch.bind_eq_ok.mp h
    unfold Statement.setEntitlements at hbatch
    split at hbatch
    · rename_i hunique
      cases hbatch
      exact hunique
    · cases hbatch
  rw [hset] at hunique ⊢
  exact if_pos hunique

theorem mergeScopeEntitlement_of_exec (hrows : t.entitlements = s.entitlements)
    (hkeys : KeysUnique s.entitlements) (hmem : existing ∈ s.entitlements)
    (h : (FlareAuth.mergeScopeEntitlement existing input now).exec t = (.ok e, t')) :
    Repository.mergeScopeEntitlement existing input now s =
      (.ok e, { s with entitlements := t'.entitlements }) := by
  unfold FlareAuth.mergeScopeEntitlement at h
  unfold Repository.mergeScopeEntitlement
  dsimp only at h ⊢
  by_cases hunexpired : existing.unexpired now = true
  · rw [if_neg (by simp [hunexpired])] at h ⊢
    split at h
    · rename_i hsame
      rw [if_pos hsame]
      cases h
      rw [hrows]
      rfl
    · rename_i hdiffers
      rw [if_neg hdiffers]
      obtain ⟨found, u, hcommit, h⟩ := exec_bind_inv h
      obtain ⟨hbatch, rfl⟩ :=
        strengthenEntitlement_of_batch hrows hkeys hmem (exec_commit_inv rfl hcommit)
      cases h
      rw [Command.atomic, Batch.outcome, Batch.settle_of_ok hbatch, hbatch]
  · rw [if_pos (by simp [hunexpired])] at h ⊢
    obtain ⟨_, u, hcommit, h⟩ := exec_bind_inv h
    cases h
    have hbatch := replaceExpiredEntitlement_of_batch hrows (exec_commit_inv rfl hcommit)
    rw [Command.atomic, Batch.outcome, Batch.settle_of_ok hbatch, hbatch]

/-- A direct grant that comes to its end among the calls of Agents does the same here, where it
runs alone. -/
theorem createScopeEntitlement_of_exec (hrows : t.entitlements = s.entitlements)
    (hkeys : KeysUnique s.entitlements)
    (h : (FlareAuth.createScopeEntitlement input now).exec t = (.ok e, t')) :
    Repository.createScopeEntitlement input now s =
      (.ok e, { s with entitlements := t'.entitlements }) := by
  unfold FlareAuth.createScopeEntitlement findEquivalentEntitlement at h
  unfold Repository.createScopeEntitlement
  rw [exec_ask_bind, hrows] at h
  rw [Command.read_bind]
  cases hfound : s.entitlements.find? (activeEquivalentEntitlement input) with
  | some existing =>
    rw [hfound] at h
    exact mergeScopeEntitlement_of_exec hrows hkeys (List.mem_of_find?_eq_some hfound) h
  | none =>
    rw [hfound] at h
    obtain ⟨inserted, u, hcommit, h⟩ := exec_bind_inv h
    have hbatch := exec_commit_inv rfl hcommit
    unfold FlareAuth.Repository.insertScopeEntitlement at hbatch
    rw [hrows] at hbatch
    split at hbatch
    · rename_i hunique
      cases hbatch
      cases h
      have hinsert : Repository.insertScopeEntitlement input s =
          .ok (some input, { s with entitlements := s.entitlements ++ [input] }) := if_pos hunique
      have hatomic : Command.atomic (Repository.insertScopeEntitlement input) s =
          (.ok (some input), { s with entitlements := s.entitlements ++ [input] }) := by
        rw [Command.atomic, Batch.outcome, Batch.settle_of_ok hinsert, hinsert]
      dsimp only
      rw [Command.bind_of_ok hatomic]
      rfl
    · -- nothing was written, so that the second look finds no equivalent either
      cases hbatch
      rw [exec_ask_bind, hrows, hfound] at h
      cases h

end Grants

namespace Sample

def discovery : Discovery where
  validateResourceUrl _ := .ok ()
  protectedResourceMetadata _ := .ok ()
  externalResourceConnector _ _ _ := .ok ()
  synchronizeResourceDiscovery _ current := .ok (current.getD [])

def notes : ApiResource where
  id := "notes"
  identifier := "notes"
  resourceUrl := "https://notes"
  authorizationModel := .native
  connectorId := none
  authorizationDetails := []
  enabled := true
  ownerOrganizationId := "a"
  visibility := .privateResource
  scopeRegistry := some [⟨"read", .assigned⟩]
  availableToAgents := true
  deletedAt := none

/-- A private Resource Server of the Organization `a`, with the user `u` as its only member, and a
second Organization `b`. -/
def store : Store where
  now := 0
  generated := 0
  users := [⟨"u", false⟩]
  organizations := [⟨"a", "a", false⟩, ⟨"b", "b", false⟩]
  members := [⟨"a", "u", ["owner"]⟩]
  organizationRoles := []
  resources := ⟨[notes], List.nodup_singleton _⟩
  applications := .empty _
  identities := .empty _
  entitlements := []
  consents := []

def grant : CreateUserPermission := ⟨none, "notes", "read", .persistent, none⟩

/-- The store in which the user was granted the scope directly. -/
def granted [Locale] : Store := (createUserPermission "u" grant (.user "u") store).2

def nothing : UpdateApiResource := ⟨none, none, none, none, none, none, none, none, none⟩

def transfer : UpdateApiResource := { nothing with ownerOrganizationId := some "b" }

def close : UpdateApiResource := { transfer with visibility := some .privateResource }

end Sample

/-- An update that sends the visibility with the new owner ends the entitlement of the user. -/
theorem updateResource_confines_sample : ∃ t resource,
    updateResource Sample.discovery "notes" Sample.close Sample.granted = (.ok resource, t) ∧
    resource.ownerOrganizationId = "b" ∧ t.entitlements.length = 1 ∧ Confined t "notes" "b" := by
  have hrun : (match updateResource Sample.discovery "notes" Sample.close Sample.granted with
      | (.ok resource, t) => resource.ownerOrganizationId == "b" && t.entitlements.length == 1
      | (.error _, _) => false) = true := by
    decide +kernel
  rcases h : updateResource Sample.discovery "notes" Sample.close Sample.granted with
    ⟨_ | resource, t⟩
  · rw [h] at hrun
    cases hrun
  · rw [h] at hrun
    simp only [Bool.and_eq_true, beq_iff_eq] at hrun
    have hconfined := (updateResource_confines h).mpr (.inl rfl)
    rw [hrun.1] at hconfined
    exact ⟨t, resource, rfl, hrun.1, hrun.2, hconfined⟩

/-- An update of the owner alone leaves the entitlement to a user outside the new owner. -/
theorem entitlement_outside_owner : ∃ t resource,
    updateResource Sample.discovery "notes" Sample.transfer Sample.granted = (.ok resource, t) ∧
    resource.visibility = .privateResource ∧
    ¬Confined t "notes" resource.ownerOrganizationId := by
  have hrun : (match updateResource Sample.discovery "notes" Sample.transfer Sample.granted with
      | (.ok resource, t) => resource.visibility == .privateResource && t.entitlements.any fun e =>
        e.resourceServerId == "notes" && e.active t.now &&
          !t.remainsVisible resource.ownerOrganizationId e
      | (.error _, _) => false) = true := by
    decide +kernel
  rcases h : updateResource Sample.discovery "notes" Sample.transfer Sample.granted with
    ⟨_ | resource, t⟩
  · rw [h] at hrun
    cases hrun
  · rw [h] at hrun
    simp only [Bool.and_eq_true, List.any_eq_true, beq_iff_eq, Bool.not_eq_true'] at hrun
    obtain ⟨hvisibility, e, he, ⟨hresource, hactive⟩, houtside⟩ := hrun
    refine ⟨t, resource, rfl, hvisibility, fun hconfined => ?_⟩
    have hinside := hconfined.entitlements e he hresource hactive
    rw [houtside] at hinside
    cases hinside

end FlareAuth.ResourceServers
