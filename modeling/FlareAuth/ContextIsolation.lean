import FlareAuth.AccessProgram
import FlareAuth.EffectiveScopes

/-!
# Isolation of authorization Contexts

Two stores may differ in everything that belongs to other Contexts and still give a user
the same scopes in this one.
-/

namespace FlareAuth

open Concurrent Procedure Access

/-- The outcomes of two runs are the same set of scopes, or both fail. -/
def SameScopes : Except Failure (List String) → Except Failure (List String) → Prop
  | .ok scopes, .ok scopes' => ∀ scope, scope ∈ scopes ↔ scope ∈ scopes'
  | .error _, .error _ => True
  | _, _ => False

/-- The columns of a Resource Server that decide what a membership gives. -/
structure ScopeRules where
  identifier : String
  enabled : Bool
  visibility : Visibility
  ownerOrganizationId : Id
  scopeRegistry : Option (List ResourceScope)

def ApiResource.scopeRules (r : ApiResource) : ScopeRules :=
  ⟨r.identifier, r.enabled, r.visibility, r.ownerOrganizationId, r.scopeRegistry⟩

/-- Two stores agree on what a user has in a Context. Of the stored Resource Server they agree on
a view, which matters only where there is a membership. -/
structure AgreeIn {β : Type} (view : ApiResource → β) (s s' : Store) (userId : Id)
    (resource : ApiResource) (tenant : Option Id) : Prop where
  registry : tenant.isSome = true → (s.directory.findResource resource.id).map view =
    (s'.directory.findResource resource.id).map view
  entitlements : ∀ e : ScopeEntitlement, e.subject = .user userId tenant →
    (e ∈ s.entitlements ↔ e ∈ s'.entitlements)
  memberships : ∀ m : Member, m.userId = userId → tenant = some m.organizationId →
    (m ∈ s.directory.members ↔ m ∈ s'.directory.members)
  roles : ∀ organizationId, tenant = some organizationId → ∀ role,
    s.directory.listOrganizationRoleScopes organizationId role =
      s'.directory.listOrganizationRoleScopes organizationId role

namespace AgreeIn

variable {β : Type} {view : ApiResource → β} {s s' : Store} {userId : Id} {resource : ApiResource}
  {tenant : Option Id}

theorem symm (h : AgreeIn view s s' userId resource tenant) :
    AgreeIn view s' s userId resource tenant where
  registry htenant := (h.registry htenant).symm
  entitlements e he := (h.entitlements e he).symm
  memberships m huser htenant := (h.memberships m huser htenant).symm
  roles organizationId htenant role := (h.roles organizationId htenant role).symm

/-- A stored Resource Server of one store has a counterpart with the same view in the other. -/
theorem stored (h : AgreeIn view s s' userId resource tenant) (htenant : tenant.isSome = true)
    {r : ApiResource} (hr : s.directory.findResource resource.id = some r) :
    ∃ r', s'.directory.findResource resource.id = some r' ∧ view r' = view r := by
  have hview := h.registry htenant
  rw [hr, Option.map_some] at hview
  exact Option.map_eq_some_iff.mp hview.symm

end AgreeIn

section Isolation

variable {s s' : Store} {userId : Id} {resource : ApiResource} {now : ℕ} {tenant : Option Id}

theorem findResource_id {d : Directory} {id : Id} {r : ApiResource}
    (h : d.findResource id = some r) : r.id = id := by
  have hfound := List.find?_some h
  simp only [decide_eq_true_eq] at hfound
  exact hfound.1

/-- What a membership gives depends on the rules of the Resource Server and the roles of the
Organization. -/
theorem membershipGrants_congr {d d' : Directory} {m : Member} {r r' : ApiResource} {scope : String}
    (hid : r'.id = r.id) (hrules : r'.scopeRules = r.scopeRules)
    (hroles : ∀ role, d.listOrganizationRoleScopes m.organizationId role =
      d'.listOrganizationRoleScopes m.organizationId role) :
    d.MembershipGrants m r scope ↔ d'.MembershipGrants m r' scope := by
  obtain ⟨hidentifier, henabled, hvisibility, howner, hregistry⟩ := ScopeRules.mk.inj hrules
  simp only [Directory.MembershipGrants, Directory.RoleGrants, ApiResource.isRealmroot,
    ApiResource.activeVisibleToOrganization, ApiResource.visibleToOrganization,
    ApiResource.scopesOfMode, ApiResource.registryScopes, hroles, hid, hidentifier, henabled,
    hvisibility, howner, hregistry]

theorem UserHolds.transfer (h : AgreeIn ApiResource.scopeRules s s' userId resource tenant)
    {scope : String} (hholds : UserHolds s userId resource now tenant scope) :
    UserHolds s' userId resource now tenant scope := by
  rcases hholds with hautomatic | ⟨e, he, hsubject, hrest⟩ |
    ⟨m, hm, huser, htenant, r, hr, hgrants⟩
  · exact .inl hautomatic
  · exact .inr (.inl ⟨e, (h.entitlements e hsubject).mp he, hsubject, hrest⟩)
  · obtain ⟨r', hr', hview⟩ := h.stored (by rw [htenant]; rfl) hr
    have hid : r'.id = r.id := (findResource_id hr').trans (findResource_id hr).symm
    have hgrants' := (membershipGrants_congr hid hview (h.roles _ htenant)).mp hgrants
    exact .inr (.inr ⟨m, (h.memberships m huser htenant).mp hm, huser, htenant, r', hr', hgrants'⟩)

theorem ContextDecodable.transfer (h : AgreeIn ApiResource.scopeRules s s' userId resource tenant)
    (hdecodable : ContextDecodable s userId resource tenant) :
    ContextDecodable s' userId resource tenant := by
  intro m hm huser htenant r' hr'
  obtain ⟨r, hr, hview⟩ := h.symm.stored (by rw [htenant]; rfl) hr'
  have hread := hdecodable m ((h.memberships m huser htenant).mpr hm) huser htenant r hr
  have hidentifier : r.identifier = r'.identifier := congrArg ScopeRules.identifier hview
  intro hrealmroot
  exact hread (by rwa [ApiResource.isRealmroot, hidentifier])

theorem declared_of_automatic {scope : String} (h : scope ∈ resource.automaticScopes) :
    scope ∈ resource.declaredScopes := by
  obtain ⟨declared, hdeclared, rfl⟩ := List.mem_map.mp h
  exact List.mem_map_of_mem (List.mem_of_mem_filter hdeclared)

/-- The scopes of a user in a Context are declared, hold every automatic one, and are the same in
every store that agrees on the Context and on the Resource Server. -/
theorem effectiveScopes_isolated (h : AgreeIn ApiResource.scopeRules s s' userId resource tenant) :
    SameScopes ((userEffectiveResourceScopes userId resource now (some tenant)).exec s).1
        ((userEffectiveResourceScopes userId resource now (some tenant)).exec s').1 ∧
      ∀ scopes, ((userEffectiveResourceScopes userId resource now (some tenant)).exec s).1 =
        .ok scopes → scopes ⊆ resource.declaredScopes ∧ resource.automaticScopes ⊆ scopes := by
  rcases exec_userEffectiveResourceScopes s userId resource now tenant with
    ⟨e, he, hnot⟩ | ⟨scopes, hok, hdecodable, hmem⟩
  · rcases exec_userEffectiveResourceScopes s' userId resource now tenant with
      ⟨e', he', -⟩ | ⟨_, -, hdecodable, -⟩
    · rw [he, he']
      exact ⟨trivial, fun _ hscopes => nomatch hscopes⟩
    · exact absurd (hdecodable.transfer h.symm) hnot
  · rcases exec_userEffectiveResourceScopes s' userId resource now tenant with
      ⟨_, -, hnot⟩ | ⟨scopes', hok', -, hmem'⟩
    · exact absurd (hdecodable.transfer h) hnot
    · rw [hok, hok']
      refine ⟨fun scope => ?_, ?_⟩
      · rw [hmem scope, hmem' scope]
        exact and_congr_right fun _ => ⟨fun hh => hh.transfer h, fun hh => hh.transfer h.symm⟩
      · rintro _ ⟨⟩
        refine ⟨fun scope hscope => ((hmem scope).mp hscope).1, fun scope hscope => ?_⟩
        exact (hmem scope).mpr ⟨declared_of_automatic hscope, .inl hscope⟩

end Isolation

namespace Sample

/-- The user `u` may write notes through a role of the Organization `o`. -/
def readers : Store :=
  { store with directory := { directory with
      members := [⟨"o", "u", ["editor"]⟩]
      organizationRoles := [⟨"o", "editor", [⟨"notes", "write"⟩]⟩] } }

/-- An entitlement of the same user in another Context. -/
def elsewhere : ScopeEntitlement :=
  ⟨"e", .user "u" (some "other"), "notes", none, [], sha256 "", "list", .persistent, .user "u",
    none, none, 0⟩

/-- The same Context beside that of another Organization. -/
def crowded : Store :=
  { store with
    directory := { directory with
      members := [⟨"o", "u", ["editor"]⟩, ⟨"other", "u", ["owner"]⟩]
      organizationRoles := [⟨"o", "editor", [⟨"notes", "write"⟩]⟩,
        ⟨"other", "editor", [⟨"notes", "list"⟩]⟩] }
    entitlements := [elsewhere] }

theorem crowded_agrees : AgreeIn ApiResource.scopeRules readers crowded "u" notes (some "o") where
  registry _ := rfl
  entitlements e he := by
    have hne : e ≠ elsewhere := by
      rintro rfl
      exact absurd he (by decide)
    simp [readers, store, crowded, hne]
  memberships m _ htenant := by
    have hne : m ≠ ⟨"other", "u", ["owner"]⟩ := by
      rintro rfl
      exact absurd htenant (by decide)
    simp [readers, crowded, hne]
  roles organizationId htenant role := by
    obtain rfl := Option.some.inj htenant
    by_cases hrole : role = "editor" <;>
      simp [Directory.listOrganizationRoleScopes, readers, crowded, hrole, eq_comm]

/-- The Resource Server of `readers`, with the same registry, no longer enabled. -/
def disabled : Store :=
  { readers with directory := { readers.directory with
      resources := [{ notes with enabled := false }] } }

theorem disabled_agrees :
    AgreeIn ApiResource.scopeRegistry readers disabled "u" notes (some "o") where
  registry _ := rfl
  entitlements _ _ := .rfl
  memberships _ _ _ := .rfl
  roles _ _ _ := rfl

end Sample

/-- Stores that agree on the registry alone may differ in what a role gives. -/
theorem registry_alone_isolates_nothing :
    AgreeIn ApiResource.scopeRegistry Sample.readers Sample.disabled "u" Sample.notes (some "o") ∧
      ¬SameScopes
        ((userEffectiveResourceScopes "u" Sample.notes 0 (some (some "o"))).exec Sample.readers).1
        ((userEffectiveResourceScopes "u" Sample.notes 0 (some (some "o"))).exec
          Sample.disabled).1 := by
  refine ⟨Sample.disabled_agrees, fun hsame => ?_⟩
  have hgiven : (userEffectiveResourceScopes "u" Sample.notes 0 (some (some "o"))).exec
      Sample.readers = (.ok ["read", "write"], Sample.readers) := by
    rfl
  have hlost : (userEffectiveResourceScopes "u" Sample.notes 0 (some (some "o"))).exec
      Sample.disabled = (.ok ["read"], Sample.disabled) := by
    rfl
  rw [hgiven, hlost] at hsame
  exact absurd ((hsame "write").mp (by decide)) (by decide)

theorem effectiveScopes_isolated_crowded :
    AgreeIn ApiResource.scopeRules Sample.readers Sample.crowded "u" Sample.notes (some "o") ∧
      SameScopes
        ((userEffectiveResourceScopes "u" Sample.notes 0 (some (some "o"))).exec Sample.readers).1
        ((userEffectiveResourceScopes "u" Sample.notes 0 (some (some "o"))).exec
          Sample.crowded).1 :=
  ⟨Sample.crowded_agrees, (effectiveScopes_isolated Sample.crowded_agrees).1⟩

end FlareAuth
