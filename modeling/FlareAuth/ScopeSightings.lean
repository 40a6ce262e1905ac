import FlareAuth.Concurrent.Sightings
import FlareAuth.EffectiveScopes
import FlareAuth.TokenRefresh

/-!
# Where the scopes of a token come from

The readers of effective scopes look at the store several times, and other calls may change it in
between. Each scope they return was, at the moment of the lookup that gave it, automatic, granted by
an entitlement in force or given by a membership.
-/

namespace FlareAuth

open Concurrent Procedure

section Access

open Access

/-- The user holds the scope in a tenant, as lookups at these moments have found. -/
def UserHeld (userId : Id) (resource : ApiResource) (tenant : Option Id) (now : ℕ)
    (seen : List Store) (scope : String) : Prop :=
  scope ∈ resource.declaredScopes ∧ (scope ∈ resource.automaticScopes ∨
    (∃ s ∈ seen, ∃ e ∈ s.listActiveUserScopeEntitlements userId resource.id now,
      e.subject.organizationId = tenant ∧ e.scope = scope) ∨
    ∃ s ∈ seen, ∃ m ∈ s.directory.listUserMemberships userId, tenant = some m.organizationId ∧
      ∃ s' ∈ seen, ∃ found, s'.directory.findResource resource.id = some found ∧
        ∃ s'' ∈ seen, s''.directory.MembershipGrants m found scope)

def ApplicationHeld (applicationId : Id) (resource : ApiResource) (now : ℕ) (seen : List Store)
    (scope : String) : Prop :=
  scope ∈ resource.declaredScopes ∧ (scope ∈ resource.automaticScopes ∨
    ∃ s ∈ seen, ∃ e ∈ s.listActiveApplicationScopeEntitlements applicationId resource.id now,
      e.scope = scope)

theorem UserHeld.mono {userId : Id} {resource : ApiResource} {tenant : Option Id} {now : ℕ}
    {seen seen' : List Store} {scope : String} (h : UserHeld userId resource tenant now seen scope)
    (hsubset : seen ⊆ seen') : UserHeld userId resource tenant now seen' scope := by
  refine ⟨h.1, h.2.imp_right (Or.imp ?_ ?_)⟩
  · rintro ⟨s, hs, e⟩
    exact ⟨s, hsubset hs, e⟩
  · rintro ⟨s, hs, m, hm, htenant, s', hs', found, hfound, s'', hs'', hgrants⟩
    exact ⟨s, hsubset hs, m, hm, htenant, s', hsubset hs', found, hfound, s'',
      hsubset hs'', hgrants⟩

theorem sees_ask {α : Type} (query : Query) (answer : Store → α) :
    (ask query answer).Sees fun a seen => ∃ s, a = answer s ∧ seen = [s] := sees_query _ _

theorem sees_look {α : Type} (answer : Directory → α) :
    (look answer).Sees fun a seen => ∃ s : Store, a = answer s.directory ∧ seen = [s] :=
  sees_query _ _

/-- The scopes of a membership at a resource, both of which may be out of date by the time the roles
are looked up. -/
theorem sees_resolveOrganizationMembershipScopes (m : Member) (resourceId : Id) :
    (resolveOrganizationMembershipScopes m.organizationId m.roles resourceId).Sees
      fun scopes seen => ∀ scope ∈ scopes, ∃ s ∈ seen, ∃ found,
        s.directory.findResource resourceId = some found ∧
          ∃ s' ∈ seen, s'.directory.MembershipGrants m found scope := by
  refine (sees_look _).bind fun resource first ⟨s, hresource, hfirst⟩ => ?_
  cases resource with
  | none => exact fun scope hscope => nomatch hscope
  | some resource =>
    refine (sees_ofExcept _).bind fun predefined _ ⟨hpredefined, hnone⟩ => ?_
    refine (sees_look _).bind fun dynamic _ ⟨s', hdynamic, hsecond⟩ => sees_done ?_
    intro scope hscope
    refine ⟨s, by simp [hfirst], resource, hresource.symm, s', by simp [hsecond], ?_⟩
    have hresolved : s'.directory.resolveOrganizationMembershipScopes m.organizationId m.roles
        resource = .ok (membershipScopes m.organizationId m.roles resource
          (Text.unique (predefined.flatten ++ dynamic))) := by
      rw [Directory.resolveOrganizationMembershipScopes, hpredefined, hdynamic]
      rfl
    rcases membershipScopes_cases s'.directory m resource with ⟨e, he, _⟩ | ⟨scopes, hok, _, hmem⟩
    · rw [hresolved] at he
      cases he
    · rw [hresolved] at hok
      obtain rfl := Except.ok.inj hok
      exact (hmem scope).mp hscope

theorem mem_visibleMemberships_some {resource : ApiResource} {memberships : List Member}
    {tenant : Option Id} {m : Member}
    (h : m ∈ visibleMemberships resource memberships (some tenant)) :
    m ∈ memberships ∧ tenant = some m.organizationId := by
  rw [visibleMemberships, if_neg fun hall => nomatch hall.1] at h
  cases tenant with
  | none => cases h
  | some organizationId =>
    obtain ⟨hm, hsame⟩ := List.mem_filter.mp h
    exact ⟨hm, by rw [of_decide_eq_true hsame]⟩

theorem sees_userEffectiveResourceScopes (userId : Id) (resource : ApiResource) (now : ℕ)
    (tenant : Option Id) :
    (userEffectiveResourceScopes userId resource now (some tenant)).Sees fun scopes seen =>
      ∀ scope ∈ scopes, UserHeld userId resource tenant now seen scope := by
  refine (sees_look _).bind fun memberships first ⟨s, hmemberships, hfirst⟩ => ?_
  dsimp only
  rw [if_neg fun hall => nomatch hall.1]
  refine (sees_ask _ _).bind fun entitlements second ⟨s', hentitlements, hsecond⟩ => ?_
  refine (Sees.collect (D := fun m scopes seen => ∀ scope ∈ scopes, ∃ s ∈ seen, ∃ found,
      s.directory.findResource resource.id = some found ∧
        ∃ s' ∈ seen, s'.directory.MembershipGrants m found scope) ?_
    fun m _ => sees_resolveOrganizationMembershipScopes m resource.id).bind
    fun inherited third hinherited => sees_done ?_
  · rintro m scopes seen seen' hsubset h scope hscope
    obtain ⟨s, hs, found, hfound, s', hs', hgrants⟩ := h scope hscope
    exact ⟨s, hsubset hs, found, hfound, s', hsubset hs', hgrants⟩
  · intro scope hscope
    rw [mem_currentRegistryScopes] at hscope
    obtain ⟨hgiven, hdeclared⟩ := hscope
    refine ⟨hdeclared, ?_⟩
    rcases List.mem_append.mp hgiven with hgiven | hinherit
    · rcases List.mem_append.mp hgiven with hautomatic | hgranted
      · exact .inl hautomatic
      · obtain ⟨e, he, rfl⟩ := List.mem_map.mp hgranted
        obtain ⟨he, htenant⟩ := List.mem_filter.mp he
        rw [userEntitlementMatchesOrganization, Option.all_some, beq_iff_eq] at htenant
        exact .inr (.inl ⟨s', by simp [hsecond], e, hentitlements ▸ he, htenant.symm, rfl⟩)
    · obtain ⟨scopes, hscopes, hmem⟩ := List.mem_flatten.mp hinherit
      obtain ⟨m, hm, hround⟩ := hinherited.exists_left hscopes
      obtain ⟨hmember, htenant⟩ := mem_visibleMemberships_some hm
      obtain ⟨s₁, hs₁, found, hfound, s₂, hs₂, hgrants⟩ := hround scope hmem
      refine .inr (.inr ⟨s, by simp [hfirst], m, hmemberships ▸ hmember, htenant, s₁, ?_, found,
        hfound, s₂, ?_, hgrants⟩)
      · simp [hs₁]
      · simp [hs₂]

theorem sees_applicationEffectiveResourceScopes (applicationId ownerOrganizationId : Id)
    (resource : ApiResource) (now : ℕ) :
    (applicationEffectiveResourceScopes applicationId ownerOrganizationId resource now).Sees
      fun scopes seen => ∀ scope ∈ scopes,
        ApplicationHeld applicationId resource now seen scope := by
  unfold applicationEffectiveResourceScopes
  split
  · refine (sees_ask _ _).bind fun entitlements first ⟨s, hentitlements, hfirst⟩ => sees_done ?_
    intro scope hscope
    rw [mem_currentRegistryScopes, List.mem_append] at hscope
    obtain ⟨hgiven, hdeclared⟩ := hscope
    refine ⟨hdeclared, hgiven.imp (fun hautomatic => hautomatic) fun hgranted => ?_⟩
    obtain ⟨e, he, rfl⟩ := List.mem_map.mp hgranted
    exact ⟨s, by simp [hfirst], e, hentitlements ▸ he, rfl⟩
  · exact sees_done fun scope hscope => nomatch hscope

end Access

namespace TokenExchange

/-- A client asked for the scope, its Application is configured for it at the resource, and holds it
there unless it is one of the protocol's own. -/
def ApplicationAllows (application : Application) (resource : ApiResource)
    (requested : Option String)
    (now : ℕ) (seen : List Store) (scope : String) : Prop :=
  scope ∈ Text.split (requested.getD "") ∧
    (scope ∈ application.oidcScopes ∨
      (∃ c ∈ application.resourceScopes, c.resourceServerId = resource.id ∧ scope ∈ c.scopes) ∧
        ApplicationHeld application.id resource now seen scope)

theorem ApplicationAllows.mono {application : Application} {resource : ApiResource}
    {requested : Option String} {now : ℕ} {seen seen' : List Store} {scope : String}
    (h : ApplicationAllows application resource requested now seen scope) (hsubset : seen ⊆ seen') :
    ApplicationAllows application resource requested now seen' scope := by
  refine ⟨h.1, h.2.imp_right fun ⟨hconfigured, hdeclared, hheld⟩ => ⟨hconfigured, hdeclared, ?_⟩⟩
  refine hheld.imp_right ?_
  rintro ⟨s, hs, e⟩
  exact ⟨s, hsubset hs, e⟩

theorem allowed_of_normalizeScopes {scope : Option String} {allowed scopes : List String}
    (h : normalizeScopes scope allowed = .ok scopes) {w : String} (hw : w ∈ scopes) :
    w ∈ allowed := by
  unfold normalizeScopes at h
  dsimp only at h
  split at h
  · cases h
  · rename_i hnone
    obtain rfl := Except.ok.inj h
    have hall := List.find?_eq_none.mp hnone w hw
    simpa using hall

theorem mem_configuredScopes {application : Application} {resource : ApiResource} {scope : String}
    (h : scope ∈ ((application.resourceScopes.find? fun c =>
      c.resourceServerId = resource.id).map (·.scopes)).getD []) :
    ∃ c ∈ application.resourceScopes, c.resourceServerId = resource.id ∧ scope ∈ c.scopes := by
  cases hfound : application.resourceScopes.find? fun c => c.resourceServerId = resource.id with
  | none =>
    rw [hfound] at h
    cases h
  | some c =>
    rw [hfound] at h
    exact ⟨c, List.mem_of_find?_eq_some hfound, by simpa using List.find?_some hfound, h⟩

theorem sees_clock : (onAccess Access.clock).Sees fun now seen =>
    ∃ s : Site, now = s.access.now ∧ seen = [s] :=
  fun s => ⟨s, rfl, rfl⟩

theorem sees_resolveApplicationTokenScopesForResource (application : Application)
    (resource : ApiResource) (requested : Option String) :
    (resolveApplicationTokenScopesForResource application resource requested).Sees
      fun scopes seen => ∃ s ∈ seen, ∀ scope ∈ scopes, ApplicationAllows application resource
        requested s.access.now (seen.map (·.access)) scope := by
  refine (sees_ofExcept _).bind fun asked _ ⟨hasked, _⟩ => ?_
  refine sees_clock.bind fun now first ⟨s, hnow, hfirst⟩ => ?_
  refine (Sees.lift (sees_applicationEffectiveResourceScopes _ _ _ _)).bind
    fun effective second heffective => sees_done ⟨s, by simp [hfirst], fun scope hscope => ?_⟩
  obtain ⟨hscope, hheld⟩ := List.mem_filter.mp hscope
  refine ⟨mem_normalizeScopes hasked hscope, ?_⟩
  rcases List.mem_append.mp (allowed_of_normalizeScopes hasked hscope) with hoidc | hconfigured
  · exact .inl hoidc
  · rw [Bool.or_eq_true, List.contains_iff_mem, List.contains_iff_mem] at hheld
    rcases hheld with hoidc | heff
    · exact .inl hoidc
    · refine .inr ⟨mem_configuredScopes hconfigured, ?_⟩
      obtain ⟨hdeclared, hgiven⟩ := heffective scope heff
      refine ⟨hdeclared, hgiven.imp (fun h => h) ?_⟩
      rintro ⟨t, ht, e, he, rfl⟩
      exact ⟨t, by simp [ht], e, hnow ▸ he, rfl⟩

end TokenExchange

end FlareAuth
