import FlareAuth.TenantAuthorization

/-!
# The tenants of a listing

A listing reads the tenants that its principal may see by rules of its own. They
agree with the rules of a point request for users and for Agents with an authority,
and differ for Applications of the platform Organization.
-/

namespace FlareAuth

/-- The targets whose contexts have the scope, read one after another. -/
def heldTenants (d : Directory) (p : Principal) (requiredScope : String) :
    List AuthorizationTenant → Except Failure (List AuthorizationTenant)
  | [] => .ok []
  | target :: rest => do
    let context ← resolveAuthorizationContext d p target
    let tenants ← heldTenants d p requiredScope rest
    return if context.scopes.contains requiredScope then target :: tenants else tenants

def restrictedTenantInventory (d : Directory) (p : Principal) (requiredScope : String) :
    Except Failure (List AuthorizationTenant) :=
  let scopeRequired := forbidden ("OAuth scope \"" ++ requiredScope ++ "\" is required.")
  match p.user, p.application, p.agent with
  | some userId, _, _ =>
    let memberships := d.listUserMemberships userId
    heldTenants d p requiredScope
      (.user userId :: memberships.map fun m => .organization m.organizationId)
  | none, some application, _ =>
    if !application.scopes.contains requiredScope then .error scopeRequired
    else .ok [.organization application.ownerOrganizationId]
  | none, none, some agent =>
    if !agent.scopes.contains requiredScope then .error scopeRequired
    else .ok agent.authority.toList
  | none, none, none => .error scopeRequired

/-- The tenants that a listing is restricted to, or none if it is unrestricted. -/
def authorizedTenantInventory (d : Directory) (p : Principal) (requiredScope : String) :
    Except Failure (Option (List AuthorizationTenant)) := do
  let platform ← d.requirePlatformOrganization
  let platformContext ← resolvePlatformOrganizationContext d p platform.id
  if platformContext.canAuthorize (.organization platform.id) requiredScope then return none
  else return some (← restrictedTenantInventory d p requiredScope)

def Covers (d : Directory) (p : Principal) (target : AuthorizationTenant) (scope : String) : Prop :=
  ∃ tenants, authorizedTenantInventory d p scope = .ok tenants ∧
    ∀ ts, tenants = some ts → target ∈ ts

instance (d : Directory) (p : Principal) (target : AuthorizationTenant) (scope : String) :
    Decidable (Covers d p target scope) :=
  match h : authorizedTenantInventory d p scope with
  | .ok none => .isTrue ⟨none, h, fun _ hnone => nomatch hnone⟩
  | .ok (some ts) => decidable_of_iff (target ∈ ts)
      ⟨fun hmem => ⟨some ts, h, fun _ hts => Option.some.inj hts ▸ hmem⟩,
        fun ⟨_, hok, hall⟩ => hall ts (Except.ok.inj (hok.symm.trans h))⟩
  | .error _ => .isFalse fun ⟨_, hok, _⟩ => nomatch h.symm.trans hok

section Users

variable {d : Directory} {p : Principal} {userId : Id} {scope : String}
  {target : AuthorizationTenant}

theorem heldTenants_cases (d : Directory) (p : Principal) (scope : String)
    (targets : List AuthorizationTenant) :
    (∃ ts, heldTenants d p scope targets = .ok ts ∧
      (∀ t ∈ targets, ∃ c, resolveAuthorizationContext d p t = .ok c) ∧
      ∀ t, t ∈ ts ↔ t ∈ targets ∧ ∃ c, resolveAuthorizationContext d p t = .ok c ∧
        scope ∈ c.scopes) ∨
    ∃ e, heldTenants d p scope targets = .error e ∧
      ∃ t ∈ targets, ∃ e, resolveAuthorizationContext d p t = .error e := by
  induction targets with
  | nil => exact .inl ⟨[], rfl, by simp, by simp⟩
  | cons t rest ih =>
    rw [heldTenants]
    cases ht : resolveAuthorizationContext d p t with
    | error e => exact .inr ⟨e, rfl, t, List.mem_cons_self, e, ht⟩
    | ok c =>
      rcases ih with ⟨ts, hts, hall, hmem⟩ | ⟨e, he, u, hu, hfails⟩
      · rw [hts]
        refine .inl ⟨_, rfl, List.forall_mem_cons.mpr ⟨⟨c, ht⟩, hall⟩, fun u => ?_⟩
        by_cases hscope : scope ∈ c.scopes
        · rw [if_pos (List.contains_iff_mem.mpr hscope), List.mem_cons, hmem, List.mem_cons]
          constructor
          · rintro (rfl | ⟨hu, hheld⟩)
            · exact ⟨.inl rfl, c, ht, hscope⟩
            · exact ⟨.inr hu, hheld⟩
          · rintro ⟨rfl | hu, hheld⟩
            · exact .inl rfl
            · exact .inr ⟨hu, hheld⟩
        · rw [if_neg (by simpa using hscope), hmem, List.mem_cons]
          constructor
          · exact fun ⟨hu, hheld⟩ => ⟨.inr hu, hheld⟩
          · rintro ⟨rfl | hu, c', hc', hheld⟩
            · obtain rfl : c = c' := Except.ok.inj (ht.symm.trans hc')
              exact absurd hheld hscope
            · exact ⟨hu, c', hc', hheld⟩
      · rw [he]
        exact .inr ⟨e, rfl, u, List.mem_cons_of_mem _ hu, hfails⟩

/-- A user that holds no platform scope can list only if every membership can be read. -/
def MembershipsRead (d : Directory) (p : Principal) (platformId userId : Id) : Prop :=
  (∀ other, ¬p.Holds d platformId userId other) →
    ∀ m ∈ d.listUserMemberships userId, d.Readable m.organizationId userId

theorem resolveUserContext_tenant {platform c : AuthorizationContext}
    (htarget : ∀ id, target = .user id → id = userId)
    (hc : resolveUserContext d p userId platform target = .ok c) : c.tenant = target := by
  cases target with
  | user id =>
    cases hc
    rw [htarget id rfl]
    simp
  | organization id =>
    simp only [resolveUserContext] at hc
    split at hc
    · cases hc
      rfl
    · rcases resolveOrganizationUser_cases d id userId with ⟨e, he, _⟩ | ⟨scopes, hok, _⟩
      · rw [he] at hc
        cases hc
      · rw [hok] at hc
        cases hc
        exact restrictUserContext_tenant

/-- The context of a user fails just where a membership that is needed cannot be read. -/
theorem resolveUserContext_error_iff {platform : AuthorizationContext} {platformId : Id}
    (hplatform : ∀ scope, scope ∈ platform.scopes ↔ p.Holds d platformId userId scope) :
    (∃ e, resolveUserContext d p userId platform target = .error e) ↔
      ∃ id, target = .organization id ∧ (∀ other, ¬p.Holds d platformId userId other) ∧
        ¬d.Readable id userId := by
  cases target with
  | user id =>
    constructor
    · rintro ⟨_, ⟨⟩⟩
    · rintro ⟨_, ⟨⟩, _⟩
  | organization id =>
    simp only [resolveUserContext]
    cases hempty : platform.scopes.isEmpty with
    | false =>
      obtain ⟨other, hother⟩ := isEmpty_eq_false_iff_exists.mp hempty
      constructor
      · rintro ⟨_, ⟨⟩⟩
      · rintro ⟨_, _, hnone, _⟩
        exact absurd ((hplatform other).mp hother) (hnone other)
    | true =>
      have hnone : ∀ other, ¬p.Holds d platformId userId other := by
        intro other hheld
        rw [List.isEmpty_iff.mp hempty] at hplatform
        exact List.not_mem_nil ((hplatform other).mpr hheld)
      rw [if_neg (by simp)]
      rcases resolveOrganizationUser_cases d id userId with
        ⟨e, he, hunreadable⟩ | ⟨scopes, hok, hreadable, _⟩
      · rw [he]
        exact ⟨fun _ => ⟨id, rfl, hnone, hunreadable⟩, fun _ => ⟨e, rfl⟩⟩
      · rw [hok]
        constructor
        · rintro ⟨_, ⟨⟩⟩
        · rintro ⟨_, ⟨⟩, _, hunreadable⟩
          exact absurd hreadable hunreadable

def userTargets (d : Directory) (userId : Id) : List AuthorizationTenant :=
  .user userId :: (d.listUserMemberships userId).map fun m => .organization m.organizationId

theorem user_mem_userTargets {id : Id} : .user id ∈ userTargets d userId ↔ id = userId := by
  simp [userTargets]

theorem organization_mem_userTargets {id : Id} : .organization id ∈ userTargets d userId ↔
    ∃ m ∈ d.listUserMemberships userId, m.organizationId = id := by
  simp [userTargets]

theorem mem_userTargets_of_holdsBeside {platformId : Id}
    (h : p.HoldsBeside d platformId userId scope target) : target ∈ userTargets d userId := by
  cases target with
  | user id => exact user_mem_userTargets.mpr h.1.symm
  | organization id =>
    obtain ⟨m, _, hm, _⟩ := h.2.2.2.1
    have hrow := List.find?_some hm
    simp only [decide_eq_true_eq] at hrow
    refine organization_mem_userTargets.mpr ⟨m, ?_, hrow.1⟩
    exact List.mem_filter.mpr ⟨List.mem_of_find?_eq_some hm, by simpa using hrow.2⟩

/-- The listing of a user without the platform scope. -/
theorem heldTenants_user_iff {platform : AuthorizationContext} {platformId : Id}
    (hplatform : ∀ scope, scope ∈ platform.scopes ↔ p.Holds d platformId userId scope)
    (hresolve : ∀ target, resolveAuthorizationContext d p target =
      resolveUserContext d p userId platform target) (hnot : ¬p.Holds d platformId userId scope) :
    (∃ ts, heldTenants d p scope (userTargets d userId) = .ok ts ∧ target ∈ ts) ↔
      p.HoldsBeside d platformId userId scope target ∧ MembershipsRead d p platformId userId := by
  have hbeside : _ ↔ p.Holds d platformId userId scope ∨
      p.HoldsBeside d platformId userId scope target := userContext_iff hplatform target
  rw [or_iff_right hnot] at hbeside
  rcases heldTenants_cases d p scope (userTargets d userId) with
    ⟨ts, hts, hall, hmem⟩ | ⟨e, he, t, ht, hfails⟩
  · have hread : MembershipsRead d p platformId userId := by
      intro hnone m hm
      obtain ⟨c, hc⟩ := hall (.organization m.organizationId)
        (organization_mem_userTargets.mpr ⟨m, hm, rfl⟩)
      refine Classical.byContradiction fun hunreadable => ?_
      obtain ⟨e, he⟩ := (resolveUserContext_error_iff hplatform).mpr ⟨_, rfl, hnone, hunreadable⟩
      rw [← hresolve, hc] at he
      cases he
    rw [hts]
    constructor
    · rintro ⟨_, ⟨⟩, htarget⟩
      obtain ⟨htarget, c, hc, hscope⟩ := (hmem target).mp htarget
      rw [hresolve] at hc
      have htenant : c.tenant = target := by
        refine resolveUserContext_tenant (fun id hid => ?_) hc
        rw [hid] at htarget
        exact user_mem_userTargets.mp htarget
      exact ⟨hbeside.mp ⟨c, hc, htenant, hscope⟩, hread⟩
    · rintro ⟨hheld, _⟩
      obtain ⟨c, hc, _, hscope⟩ := hbeside.mpr hheld
      refine ⟨ts, rfl, (hmem target).mpr ⟨mem_userTargets_of_holdsBeside hheld, c, ?_, hscope⟩⟩
      rw [hresolve]
      exact hc
  · rw [hresolve] at hfails
    obtain ⟨id, rfl, hnone, hunreadable⟩ := (resolveUserContext_error_iff hplatform).mp hfails
    obtain ⟨m, hm, rfl⟩ := organization_mem_userTargets.mp ht
    rw [he]
    constructor
    · rintro ⟨_, ⟨⟩, _⟩
    · exact fun ⟨_, hread⟩ => absurd (hread hnone m hm) hunreadable

/-- The listing, once the platform context is known. -/
theorem covers_of_context {platform : Organization} {c : AuthorizationContext}
    (hplatform : d.findPlatformOrganization = some platform)
    (hc : resolvePlatformOrganizationContext d p platform.id = .ok c) :
    Covers d p target scope ↔ c.canAuthorize (.organization platform.id) scope = true ∨
      ∃ ts, restrictedTenantInventory d p scope = .ok ts ∧ target ∈ ts := by
  have hinventory : authorizedTenantInventory d p scope =
      if c.canAuthorize (.organization platform.id) scope then .ok none
      else restrictedTenantInventory d p scope >>= fun ts => .ok (some ts) := by
    rw [authorizedTenantInventory, Directory.requirePlatformOrganization, hplatform]
    change (resolvePlatformOrganizationContext d p platform.id >>= _) = _
    rw [hc]
    rfl
  unfold Covers
  rw [hinventory]
  by_cases hauthorized : c.canAuthorize (.organization platform.id) scope = true
  · rw [if_pos hauthorized]
    exact ⟨fun _ => .inl hauthorized, fun _ => ⟨none, rfl, fun _ h => nomatch h⟩⟩
  · rw [if_neg hauthorized, or_iff_right hauthorized]
    cases restrictedTenantInventory d p scope with
    | error e =>
      constructor
      · rintro ⟨_, ⟨⟩, _⟩
      · rintro ⟨_, ⟨⟩, _⟩
    | ok ts =>
      constructor
      · rintro ⟨_, ⟨⟩, hall⟩
        exact ⟨ts, rfl, hall ts rfl⟩
      · rintro ⟨_, ⟨⟩, htarget⟩
        exact ⟨some ts, rfl, fun _ hts => Option.some.inj hts ▸ htarget⟩

theorem not_covers_of_no_platform (hplatform : d.findPlatformOrganization = none) :
    ¬Covers d p target scope := by
  rintro ⟨_, hok, _⟩
  rw [authorizedTenantInventory, Directory.requirePlatformOrganization, hplatform] at hok
  cases hok

/-- A user lists a tenant just if a point request for it passes and the memberships can be
read. -/
theorem covers_user_iff (hu : p.user = some userId) :
    Covers d p target scope ↔ ∃ platform, d.findPlatformOrganization = some platform ∧
      d.Readable platform.id userId ∧ (p.Holds d platform.id userId scope ∨
        p.HoldsBeside d platform.id userId scope target ∧
          MembershipsRead d p platform.id userId) := by
  cases hplatform : d.findPlatformOrganization with
  | none =>
    refine ⟨fun h => absurd h (not_covers_of_no_platform hplatform), ?_⟩
    rintro ⟨_, ⟨⟩, _⟩
  | some platform =>
    have hexists : ∀ {P : Organization → Prop},
        (∃ found, some platform = some found ∧ P found) ↔ P platform := by
      simp
    rw [hexists]
    rcases resolvePlatform_cases (d := d) hu platform.id with
      ⟨e, he, hunreadable⟩ | ⟨c, hok, htenant, hreadable, hmem⟩
    · refine ⟨?_, fun h => absurd h.1 hunreadable⟩
      rintro ⟨_, hinventory, _⟩
      rw [authorizedTenantInventory, Directory.requirePlatformOrganization, hplatform] at hinventory
      change (resolvePlatformOrganizationContext d p platform.id >>= _) = _ at hinventory
      rw [he] at hinventory
      cases hinventory
    · have hresolve : ∀ target, resolveAuthorizationContext d p target =
          resolveUserContext d p userId c target := by
        intro target
        rw [resolveAuthorizationContext, hu, Directory.requirePlatformOrganization, hplatform]
        change (resolvePlatformOrganizationContext d p platform.id >>= _) = _
        rw [hok]
        rfl
      have hrestricted : restrictedTenantInventory d p scope =
          heldTenants d p scope (userTargets d userId) := by
        rw [restrictedTenantInventory, hu]
        rfl
      have hauthorized : c.canAuthorize (.organization platform.id) scope = true ↔
          p.Holds d platform.id userId scope := by
        rw [AuthorizationContext.canAuthorize_iff, hmem]
        exact and_iff_right htenant
      rw [covers_of_context hplatform hok, hauthorized, hrestricted]
      by_cases hheld : p.Holds d platform.id userId scope
      · simp [hheld, hreadable]
      · rw [or_iff_right hheld, or_iff_right hheld, and_iff_right hreadable,
          heldTenants_user_iff hmem hresolve hheld]

end Users

section Others

variable {d : Directory} {p : Principal} {scope : String} {target : AuthorizationTenant}

theorem authorized_application_iff {a : ApplicationPrincipal} (hu : p.user = none)
    (ha : p.application = some a) : Authorized d p target scope ↔
      .organization a.ownerOrganizationId = target ∧ scope ∈ a.scopes := by
  rw [authorized_iff, resolveAuthorizationContext, hu, ha]
  simp

theorem covers_application_iff {a : ApplicationPrincipal} (hu : p.user = none)
    (ha : p.application = some a) : Covers d p target scope ↔
      ∃ platform, d.findPlatformOrganization = some platform ∧ scope ∈ a.scopes ∧
        (a.ownerOrganizationId = platform.id ∨ .organization a.ownerOrganizationId = target) := by
  cases hplatform : d.findPlatformOrganization with
  | none =>
    refine ⟨fun h => absurd h (not_covers_of_no_platform hplatform), ?_⟩
    rintro ⟨_, ⟨⟩, _⟩
  | some platform =>
    have hcontext : resolvePlatformOrganizationContext d p platform.id = .ok
        ⟨.application a.id, .organization a.ownerOrganizationId,
          if a.ownerOrganizationId = platform.id then a.scopes else []⟩ := by
      rw [resolvePlatformOrganizationContext, hu, ha]
    rw [covers_of_context hplatform hcontext, AuthorizationContext.canAuthorize_iff,
      restrictedTenantInventory, hu, ha]
    by_cases hscope : scope ∈ a.scopes
    · by_cases howner : a.ownerOrganizationId = platform.id
      · simp [hscope, howner]
      · have howner' : platform.id ≠ a.ownerOrganizationId := Ne.symm howner
        simp [hscope, howner, howner', eq_comm]
    · by_cases howner : a.ownerOrganizationId = platform.id <;> simp [hscope, howner]

theorem authorized_agent_iff {a : AgentPrincipal} (hu : p.user = none)
    (happlication : p.application = none) (ha : p.agent = some a) :
    Authorized d p target scope ↔ ∃ platform, d.findPlatformOrganization = some platform ∧
      scope ∈ a.scopes ∧ (a.authority = some (.organization platform.id) ∨
        a.authority.getD (.user "") = target) := by
  rw [authorized_iff, resolveAuthorizationContext, hu, happlication, ha,
    Directory.requirePlatformOrganization]
  cases d.findPlatformOrganization with
  | none =>
    constructor
    · rintro ⟨_, ⟨⟩, _⟩
    · rintro ⟨_, ⟨⟩, _⟩
  | some platform =>
    constructor
    · rintro ⟨_, ⟨⟩, htenant, hscope⟩
      refine ⟨platform, rfl, hscope, ?_⟩
      by_cases hauthority : a.authority = some (.organization platform.id)
      · exact .inl hauthority
      · exact .inr ((if_neg hauthority).symm.trans htenant)
    · rintro ⟨_, ⟨⟩, hscope, hauthority⟩
      refine ⟨_, rfl, ?_, hscope⟩
      dsimp only
      split
      · rfl
      · rename_i hnot
        exact hauthority.resolve_left hnot

theorem covers_agent_iff {a : AgentPrincipal} (hu : p.user = none)
    (happlication : p.application = none) (ha : p.agent = some a) :
    Covers d p target scope ↔ ∃ platform, d.findPlatformOrganization = some platform ∧
      scope ∈ a.scopes ∧ (a.authority = some (.organization platform.id) ∨
        a.authority = some target) := by
  cases hplatform : d.findPlatformOrganization with
  | none =>
    refine ⟨fun h => absurd h (not_covers_of_no_platform hplatform), ?_⟩
    rintro ⟨_, ⟨⟩, _⟩
  | some platform =>
    have hcontext : resolvePlatformOrganizationContext d p platform.id = .ok
        ⟨.agent a.identityId, .organization platform.id,
          if a.authority = some (.organization platform.id) then a.scopes else []⟩ := by
      rw [resolvePlatformOrganizationContext, hu, happlication, ha]
    rw [covers_of_context hplatform hcontext, AuthorizationContext.canAuthorize_iff,
      restrictedTenantInventory, hu, happlication, ha]
    by_cases hscope : scope ∈ a.scopes
    · by_cases hauthority : a.authority = some (.organization platform.id) <;>
        simp [hscope, hauthority]
    · by_cases hauthority : a.authority = some (.organization platform.id) <;>
        simp [hscope, hauthority]

theorem authorized_none (hu : p.user = none) (happlication : p.application = none)
    (ha : p.agent = none) : ¬Authorized d p target scope := by
  rw [authorized_iff, resolveAuthorizationContext, hu, happlication, ha]
  rintro ⟨_, ⟨⟩, _⟩

theorem covers_none (hu : p.user = none) (happlication : p.application = none)
    (ha : p.agent = none) : ¬Covers d p target scope := by
  rintro ⟨_, hok, _⟩
  unfold authorizedTenantInventory resolvePlatformOrganizationContext at hok
  rw [hu, happlication, ha] at hok
  cases hplatform : d.requirePlatformOrganization with
  | error e =>
    rw [hplatform] at hok
    cases hok
  | ok platform =>
    rw [hplatform] at hok
    cases hok

/-- The rules of listings and of point requests do not part at the principal and the tenant. -/
structure ListsAlike (d : Directory) (p : Principal) (target : AuthorizationTenant)
    (scope : String) : Prop where
  users : ∀ userId platform, p.user = some userId → d.findPlatformOrganization = some platform →
    d.Readable platform.id userId → p.HoldsBeside d platform.id userId scope target →
      MembershipsRead d p platform.id userId
  applications : ∀ a, p.user = none → p.application = some a → scope ∈ a.scopes →
    .organization a.ownerOrganizationId = target ∨
      ∀ platform, d.findPlatformOrganization = some platform → a.ownerOrganizationId ≠ platform.id
  platform : ∀ a, p.user = none → p.application = some a → scope ∈ a.scopes →
    .organization a.ownerOrganizationId = target → d.findPlatformOrganization ≠ none
  agents : ∀ a, p.user = none → p.application = none → p.agent = some a → scope ∈ a.scopes →
    a.authority = none → d.findPlatformOrganization ≠ none → .user "" ≠ target

/-- A tenant is listed just if it passes alone, in exactly those cases. -/
theorem covers_iff_authorized_iff :
    (Covers d p target scope ↔ Authorized d p target scope) ↔ ListsAlike d p target scope := by
  cases hu : p.user with
  | some userId =>
    rw [covers_user_iff hu, authorized_user_iff hu]
    constructor
    · intro hiff
      refine ⟨fun userId' platform hu' hplatform hreadable hbeside hnone => ?_, ?_, ?_, ?_⟩
      · obtain rfl : userId = userId' := Option.some.inj (hu.symm.trans hu')
        obtain ⟨_, hplatform', _, hheld⟩ := hiff.mpr ⟨platform, hplatform, hreadable, .inr hbeside⟩
        obtain rfl : platform = _ := Option.some.inj (hplatform.symm.trans hplatform')
        rcases hheld with hheld | ⟨_, hread⟩
        · exact absurd hheld (hnone scope)
        · exact hread hnone
      · exact fun _ hnone => nomatch hu.symm.trans hnone
      · exact fun _ hnone => nomatch hu.symm.trans hnone
      · exact fun _ hnone => nomatch hu.symm.trans hnone
    · intro halike
      constructor
      · rintro ⟨platform, hplatform, hreadable, hheld | ⟨hbeside, _⟩⟩
        · exact ⟨platform, hplatform, hreadable, .inl hheld⟩
        · exact ⟨platform, hplatform, hreadable, .inr hbeside⟩
      · rintro ⟨platform, hplatform, hreadable, hheld | hbeside⟩
        · exact ⟨platform, hplatform, hreadable, .inl hheld⟩
        · exact ⟨platform, hplatform, hreadable,
            .inr ⟨hbeside, halike.users userId platform hu hplatform hreadable hbeside⟩⟩
  | none =>
    cases happlication : p.application with
    | some a =>
      rw [covers_application_iff hu happlication, authorized_application_iff hu happlication]
      constructor
      · intro hiff
        refine ⟨fun _ _ hsome => (nomatch hu.symm.trans hsome), fun a' _ ha' hscope => ?_,
          fun a' _ ha' hscope htarget hnone => ?_,
          fun _ _ hnone => (nomatch happlication.symm.trans hnone)⟩
        · obtain rfl : a = a' := Option.some.inj (happlication.symm.trans ha')
          by_cases htarget : Owner.organization a.ownerOrganizationId = target
          · exact .inl htarget
          · refine .inr fun platform hplatform howner => htarget ?_
            exact (hiff.mp ⟨platform, hplatform, hscope, .inl howner⟩).1
        · obtain rfl : a = a' := Option.some.inj (happlication.symm.trans ha')
          obtain ⟨platform, hplatform, _⟩ := hiff.mpr ⟨htarget, hscope⟩
          rw [hnone] at hplatform
          cases hplatform
      · intro halike
        constructor
        · rintro ⟨platform, hplatform, hscope, howner | htarget⟩
          · rcases halike.applications a hu happlication hscope with htarget | hother
            · exact ⟨htarget, hscope⟩
            · exact absurd howner (hother platform hplatform)
          · exact ⟨htarget, hscope⟩
        · rintro ⟨htarget, hscope⟩
          have hplatform := halike.platform a hu happlication hscope htarget
          obtain ⟨platform, hplatform⟩ := Option.ne_none_iff_exists'.mp hplatform
          exact ⟨platform, hplatform, hscope, .inr htarget⟩
    | none =>
      cases ha : p.agent with
      | some a =>
        rw [covers_agent_iff hu happlication ha, authorized_agent_iff hu happlication ha]
        constructor
        · intro hiff
          refine ⟨fun _ _ hsome => (nomatch hu.symm.trans hsome),
            fun _ _ hsome => (nomatch happlication.symm.trans hsome),
            fun _ _ hsome => (nomatch happlication.symm.trans hsome),
            fun a' _ _ ha' hscope hnone hplatform htarget => ?_⟩
          obtain rfl : a = a' := Option.some.inj (ha.symm.trans ha')
          obtain ⟨platform, hplatform⟩ := Option.ne_none_iff_exists'.mp hplatform
          obtain ⟨_, _, _, hauthority | hauthority⟩ :=
            hiff.mpr ⟨platform, hplatform, hscope, .inr (by rw [hnone]; exact htarget)⟩
          · rw [hnone] at hauthority
            cases hauthority
          · rw [hnone] at hauthority
            cases hauthority
        · intro halike
          constructor
          · rintro ⟨platform, hplatform, hscope, hauthority | hauthority⟩
            · exact ⟨platform, hplatform, hscope, .inl hauthority⟩
            · exact ⟨platform, hplatform, hscope, .inr (by rw [hauthority]; rfl)⟩
          · rintro ⟨platform, hplatform, hscope, hauthority | hauthority⟩
            · exact ⟨platform, hplatform, hscope, .inl hauthority⟩
            · cases hnone : a.authority with
              | none =>
                rw [hnone] at hauthority
                exact absurd hauthority (halike.agents a hu happlication ha hscope hnone
                  (by rw [hplatform]; exact fun h => nomatch h))
              | some owner =>
                rw [hnone] at hauthority
                exact ⟨platform, hplatform, hscope, .inr (congrArg some hauthority)⟩
      | none =>
        have hcovers : ¬Covers d p target scope := covers_none hu happlication ha
        have hpasses : ¬Authorized d p target scope := authorized_none hu happlication ha
        refine ⟨fun _ => ⟨?_, ?_, ?_, ?_⟩, fun _ => iff_of_false hcovers hpasses⟩
        · exact fun _ _ hsome => nomatch hu.symm.trans hsome
        · exact fun _ _ hsome => nomatch happlication.symm.trans hsome
        · exact fun _ _ hsome => nomatch happlication.symm.trans hsome
        · exact fun _ _ _ hsome => nomatch ha.symm.trans hsome

end Others

section Samples

def Sample.platformApplication : Principal :=
  ⟨none, some ⟨"app", "platform", ["applications:read"]⟩, none⟩

/-- An Application of the platform Organization lists every tenant, and no point request of it
passes outside of its own. -/
theorem listing_exceeds_point_requests :
    Covers Sample.ownerDirectory Sample.platformApplication (.organization "o")
      "applications:read" ∧
    ¬Authorized Sample.ownerDirectory Sample.platformApplication (.organization "o")
      "applications:read" := by
  constructor <;> decide +kernel

end Samples

end FlareAuth
