import Mathlib.Data.List.ReduceOption
import FlareAuth.AccessRuns

/-!
# The scopes of a connected account

What the items of a provider's catalog say about the scopes of a detail, and
when the scopes that the account lets a call carry stay within what is said of
every detail that the call asks for.
-/

namespace FlareAuth

open Concurrent Procedure Access

section Scopes

variable [Locale]

/-- What the catalog's items say about the scopes of a detail: the last item that lists it
counts, and it may leave its scopes open. None lists an unknown detail. -/
def statedScopes (items : List CatalogItem) (detail : AuthorizationDetail) :
    Option (Option (List String)) :=
  (items.reverse.find? fun item =>
    canonicalJson item.authorizationDetail = canonicalJson detail).map (·.grantedScopes)

/-- The scopes granted in a detail: those of its item, or the connection's if the item leaves
them open. -/
def detailScopes (connection : ResourceConnection) (items : List CatalogItem)
    (detail : AuthorizationDetail) : List String :=
  (statedScopes items detail).elim [] fun stated => stated.getD connection.grantedScopes

/-- The scopes that a caller of `accountScopesForAuthorizationDetails` goes by, which falls back
on those of the connection. -/
def accountScopes (connection : ResourceConnection) (items : List CatalogItem)
    (details : List AuthorizationDetail) : List String :=
  (contextualScopes (Text.unique (details.map canonicalJson)) items).getD connection.grantedScopes

def ReadsCatalog (s : Store) (resource : ApiResource) (connection : ResourceConnection)
    (details : List AuthorizationDetail) (items : List CatalogItem) : Prop :=
  ∃ t, (catalogItems resource connection fun items =>
    (Text.unique (details.map canonicalJson)).all
      (items.map fun item => canonicalJson item.authorizationDetail).contains).exec s =
    (.ok items, t)

/-- When the catalog lists every detail and leaves the scopes of one of them open, the scopes
which it states for the others leave out none of the connection's. -/
def OpenOnlyToAll (connection : ResourceConnection) (items : List CatalogItem)
    (details : List AuthorizationDetail) : Prop :=
  (∀ detail ∈ details, statedScopes items detail ≠ none) →
    (∃ detail ∈ details, statedScopes items detail = some none) →
    ∀ detail ∈ details, ∀ stated, statedScopes items detail = some (some stated) →
      connection.grantedScopes ⊆ stated

section Contextual

variable {items : List CatalogItem} {details : List AuthorizationDetail}
  {connection : ResourceConnection} {requested : List String} {key : String} {scope : String}

/-- The entries of the map that the source fills, in the order of the items. -/
def grantedByDetail (requested : List String) (items : List CatalogItem) :
    List (String × Option (List String)) :=
  (items.map fun item => (canonicalJson item.authorizationDetail, item.grantedScopes)).filter
    fun x => requested.contains x.1

theorem find_grantedByDetail (h : key ∈ requested) :
    ((grantedByDetail requested items).reverse.find? fun x => x.1 = key).map (·.2) =
      (items.reverse.find? fun item => canonicalJson item.authorizationDetail = key).map
        (·.grantedScopes) := by
  have hkey (item : CatalogItem) :
      (requested.contains (canonicalJson item.authorizationDetail) = true ∧
        decide (canonicalJson item.authorizationDetail = key) = true) ↔
      canonicalJson item.authorizationDetail = key := by
    rw [decide_eq_true_iff, List.contains_iff_mem, and_iff_right_iff_imp]
    rintro rfl
    exact h
  unfold grantedByDetail
  rw [← List.filter_reverse, ← List.map_reverse, List.find?_filter, List.find?_map]
  simp only [Function.comp_def, hkey, Option.map_map]

theorem mem_keys_iff : key ∈ Text.unique ((grantedByDetail requested items).map (·.1)) ↔
    key ∈ requested ∧ ∃ item ∈ items, canonicalJson item.authorizationDetail = key := by
  simp only [Text.mem_unique, grantedByDetail, List.mem_map, List.mem_filter,
    List.contains_iff_mem]
  constructor
  · rintro ⟨x, ⟨⟨item, hitem, rfl⟩, hx⟩, rfl⟩
    exact ⟨hx, item, hitem, rfl⟩
  · rintro ⟨hkey, item, hitem, rfl⟩
    exact ⟨_, ⟨⟨item, hitem, rfl⟩, hkey⟩, rfl⟩

/-- The map has as many entries as there are requested details when it has one for each. -/
theorem length_keys_eq_iff (h : requested.Nodup) :
    (Text.unique ((grantedByDetail requested items).map (·.1))).length = requested.length ↔
      ∀ key ∈ requested, ∃ item ∈ items, canonicalJson item.authorizationDetail = key := by
  have hnodup := Text.nodup_unique ((grantedByDetail requested items).map (·.1))
  have hsub : Text.unique ((grantedByDetail requested items).map (·.1)) ⊆ requested :=
    fun key hkey => (mem_keys_iff.mp hkey).1
  have hle := (List.subperm_of_subset hnodup hsub).length_le
  constructor
  · intro hlength key hkey
    have hperm := (List.subperm_of_subset hnodup hsub).perm_of_length_le hlength.ge
    exact (mem_keys_iff.mp (hperm.mem_iff.mpr hkey)).2
  · intro hlisted
    have hback : requested ⊆ Text.unique ((grantedByDetail requested items).map (·.1)) :=
      fun key hkey => mem_keys_iff.mpr ⟨hkey, hlisted key hkey⟩
    have hge := (List.subperm_of_subset h hback).length_le
    omega

theorem statedScopes_eq_none_iff {detail : AuthorizationDetail} :
    statedScopes items detail = none ↔
      ∀ item ∈ items, canonicalJson item.authorizationDetail ≠ canonicalJson detail := by
  simp [statedScopes]

theorem statedScopes_ne_none_iff {detail : AuthorizationDetail} :
    statedScopes items detail ≠ none ↔
      ∃ item ∈ items, canonicalJson item.authorizationDetail = canonicalJson detail := by
  rw [ne_eq, statedScopes_eq_none_iff]
  push Not
  rfl

def statedLists (requested : List String) (items : List CatalogItem) :
    List (Option (List String)) :=
  (Text.unique ((grantedByDetail requested items).map (·.1))).map fun key =>
    (((grantedByDetail requested items).reverse.find? fun x => x.1 = key).map (·.2)).getD none

theorem mem_statedLists_iff {stated : Option (List String)} :
    stated ∈ statedLists (Text.unique (details.map canonicalJson)) items ↔
      ∃ detail ∈ details, statedScopes items detail = some stated := by
  unfold statedLists
  rw [List.mem_map]
  constructor
  · rintro ⟨key, hkey, rfl⟩
    obtain ⟨hrequested, hitem⟩ := mem_keys_iff.mp hkey
    obtain ⟨detail, hdetail, rfl⟩ := List.mem_map.mp (Text.mem_unique.mp hrequested)
    refine ⟨detail, hdetail, ?_⟩
    rw [find_grantedByDetail hrequested]
    obtain ⟨stated, hstated⟩ := Option.ne_none_iff_exists'.mp (statedScopes_ne_none_iff.mpr hitem)
    change statedScopes items detail = some ((statedScopes items detail).getD none)
    rw [hstated]
    rfl
  · rintro ⟨detail, hdetail, hstated⟩
    have hrequested : canonicalJson detail ∈ Text.unique (details.map canonicalJson) :=
      Text.mem_unique.mpr (List.mem_map_of_mem hdetail)
    have hitem := statedScopes_ne_none_iff.mp (hstated ▸ Option.some_ne_none stated)
    refine ⟨canonicalJson detail, mem_keys_iff.mpr ⟨hrequested, hitem⟩, ?_⟩
    rw [find_grantedByDetail hrequested]
    exact congrArg (·.getD none) hstated

/-- A list of all the scopes that stated lists have in common. -/
theorem contextualScopes_eq (requested : List String) (items : List CatalogItem) :
    contextualScopes requested items =
      if (Text.unique ((grantedByDetail requested items).map (·.1))).length ≠ requested.length then
        some []
      else if (statedLists requested items).any (·.isNone) then none
      else match (statedLists requested items).reduceOption with
        | [] => some []
        | first :: rest =>
          some (Text.sort (first.filter fun scope => rest.all (·.contains scope))) := rfl

theorem contextualScopes_of_unlisted
    (h : ∃ detail ∈ details, statedScopes items detail = none) :
    contextualScopes (Text.unique (details.map canonicalJson)) items = some [] := by
  obtain ⟨detail, hdetail, hnone⟩ := h
  have hrequested : canonicalJson detail ∈ Text.unique (details.map canonicalJson) :=
    Text.mem_unique.mpr (List.mem_map_of_mem hdetail)
  rw [contextualScopes_eq, if_pos]
  intro hlength
  obtain ⟨item, hitem, hkey⟩ :=
    (length_keys_eq_iff (Text.nodup_unique _)).mp hlength _ hrequested
  exact statedScopes_eq_none_iff.mp hnone item hitem hkey

section Listed

variable (h : ∀ detail ∈ details, statedScopes items detail ≠ none)

include h

theorem length_keys_of_listed :
    (Text.unique ((grantedByDetail (Text.unique (details.map canonicalJson)) items).map
      (·.1))).length = (Text.unique (details.map canonicalJson)).length := by
  rw [length_keys_eq_iff (Text.nodup_unique _)]
  intro key hkey
  obtain ⟨detail, hdetail, rfl⟩ := List.mem_map.mp (Text.mem_unique.mp hkey)
  exact statedScopes_ne_none_iff.mp (h detail hdetail)

theorem contextualScopes_of_open
    (hopen : ∃ detail ∈ details, statedScopes items detail = some none) :
    contextualScopes (Text.unique (details.map canonicalJson)) items = none := by
  rw [contextualScopes_eq, if_neg (not_not.mpr (length_keys_of_listed h)), if_pos]
  rw [List.any_eq_true]
  exact ⟨none, mem_statedLists_iff.mpr hopen, rfl⟩

theorem contextualScopes_of_stated
    (hstated : ∀ detail ∈ details, statedScopes items detail ≠ some none) :
    ∃ scopes, contextualScopes (Text.unique (details.map canonicalJson)) items = some scopes ∧
      ∀ scope ∈ scopes, ∀ stated, some stated ∈
        statedLists (Text.unique (details.map canonicalJson)) items → scope ∈ stated := by
  have hany : ¬(statedLists (Text.unique (details.map canonicalJson)) items).any (·.isNone) := by
    rw [List.any_eq_true]
    rintro ⟨stated, hmem, hnone⟩
    obtain rfl := Option.isNone_iff_eq_none.mp hnone
    obtain ⟨detail, hdetail, hopen⟩ := mem_statedLists_iff.mp hmem
    exact hstated detail hdetail hopen
  rw [contextualScopes_eq, if_neg (not_not.mpr (length_keys_of_listed h)), if_neg hany]
  cases hlists : (statedLists (Text.unique (details.map canonicalJson)) items).reduceOption with
  | nil => exact ⟨[], rfl, fun scope hscope => absurd hscope List.not_mem_nil⟩
  | cons first rest =>
    refine ⟨_, rfl, fun scope hscope stated hmem => ?_⟩
    rw [Text.mem_sort, List.mem_filter] at hscope
    have hlist : stated ∈ first :: rest := by
      rw [← hlists]
      exact List.reduceOption_mem_iff.mpr hmem
    rcases List.mem_cons.mp hlist with rfl | hrest
    · exact hscope.1
    · exact List.contains_iff_mem.mp (List.all_eq_true.mp hscope.2 stated hrest)

end Listed

/-- The scopes which a caller goes by stay within those of every detail exactly when an open item
opens nothing that another item restricts. -/
theorem accountScopes_within_iff :
    (∀ scope ∈ accountScopes connection items details, ∀ detail ∈ details,
      scope ∈ detailScopes connection items detail) ↔ OpenOnlyToAll connection items details := by
  by_cases hlisted : ∀ detail ∈ details, statedScopes items detail ≠ none
  · by_cases hopen : ∃ detail ∈ details, statedScopes items detail = some none
    · have hall : accountScopes connection items details = connection.grantedScopes := by
        unfold accountScopes
        rw [contextualScopes_of_open hlisted hopen]
        rfl
      rw [hall]
      constructor
      · intro hwithin _ _ detail hdetail stated hstated scope hscope
        have hmem := hwithin scope hscope detail hdetail
        unfold detailScopes at hmem
        rwa [hstated] at hmem
      · intro hcond scope hscope detail hdetail
        obtain ⟨stated, hstated⟩ := Option.ne_none_iff_exists'.mp (hlisted detail hdetail)
        unfold detailScopes
        rw [hstated]
        cases stated with
        | none => exact hscope
        | some stated => exact hcond hlisted hopen detail hdetail stated hstated hscope
    · have hstated : ∀ detail ∈ details, statedScopes items detail ≠ some none :=
        fun detail hdetail hnone => hopen ⟨detail, hdetail, hnone⟩
      obtain ⟨scopes, hscopes, hcommon⟩ := contextualScopes_of_stated hlisted hstated
      refine iff_of_true ?_ fun _ hsome => absurd hsome hopen
      intro scope hscope detail hdetail
      unfold accountScopes at hscope
      rw [hscopes] at hscope
      obtain ⟨stated, hdetailStated⟩ := Option.ne_none_iff_exists'.mp (hlisted detail hdetail)
      cases stated with
      | none => exact absurd hdetailStated (hstated detail hdetail)
      | some stated =>
        have hmem := hcommon scope hscope stated
          (mem_statedLists_iff.mpr ⟨detail, hdetail, hdetailStated⟩)
        unfold detailScopes
        rwa [hdetailStated]
  · have hunlisted : ∃ detail ∈ details, statedScopes items detail = none := by
      push Not at hlisted
      exact hlisted
    refine iff_of_true ?_ fun hall => absurd hall hlisted
    intro scope hscope
    unfold accountScopes at hscope
    rw [contextualScopes_of_unlisted hunlisted] at hscope
    exact absurd hscope List.not_mem_nil

end Contextual

section Callers

variable {s t : Store} {resource : ApiResource} {connection : ResourceConnection}
  {details : List AuthorizationDetail} {contextual : Option (List String)}

theorem readsCatalog_of_exec
    (h : (accountScopesForAuthorizationDetails resource connection details).exec s =
      (.ok contextual, t)) :
    ∃ items, ReadsCatalog s resource connection details items ∧
      contextual.getD connection.grantedScopes = accountScopes connection items details := by
  unfold accountScopesForAuthorizationDetails at h
  dsimp only at h
  obtain ⟨items, u, hitems, hanswer⟩ := exec_bind_inv h
  have hcontextual : contextual =
      contextualScopes (Text.unique (details.map canonicalJson)) items :=
    (Except.ok.inj (congrArg Prod.fst hanswer)).symm
  exact ⟨items, ⟨u, hitems⟩, by rw [hcontextual, accountScopes]⟩

/-- The check of a permission's scopes, with the contextual scopes that it goes by. -/
theorem contextual_of_permission {input : PermissionTarget} {actorUserId : Id}
    {resolved : Option (List String)}
    (hexec : (validateAgentPermissionTarget resource input details actorUserId resolved).exec s =
      (.ok (some connection), t)) :
    ∃ u v contextual, s.ReadTo u ∧
      (if resolved.isSome then pure resolved
        else if details.isEmpty then pure none
        else accountScopesForAuthorizationDetails resource connection details :
          Access (Option (List String))).exec u = (.ok contextual, v) ∧
      ∀ scope ∈ input.scopes, scope ∈ contextual.getD connection.grantedScopes := by
  unfold validateAgentPermissionTarget at hexec
  obtain ⟨-, -, hexec⟩ := exec_ofExcept_bind hexec
  rw [exec_look_bind] at hexec
  obtain ⟨identity, -, hexec⟩ := exec_orThrow_bind hexec
  obtain ⟨-, s₁, -, hs₁, hexec⟩ := exec_reads_bind (by simp) hexec
  split at hexec
  · rw [exec_clock_bind] at hexec
    obtain ⟨grantorScopes, s₂, -, hs₂, hexec⟩ := exec_reads_bind (by simp) hexec
    obtain ⟨-, -, hexec⟩ := exec_ofExcept_bind hexec
    obtain ⟨found, s₃, -, hs₃, hexec⟩ := exec_reads_bind (by simp) hexec
    obtain ⟨-, hexec⟩ := exec_require_bind hexec
    obtain ⟨-, -, hexec⟩ := exec_ofExcept_bind hexec
    obtain ⟨-, -, hexec⟩ := exec_ofExcept_bind hexec
    obtain ⟨-, -, hexec⟩ := exec_ofExcept_bind hexec
    have hs := hs₁.trans (hs₂.trans hs₃)
    have hcheck {v w : Store} {contextual : Option (List String)}
        (h : (Procedure.ofExcept (assertScopeSubset input.scopes
            (contextual.getD found.grantedScopes) "connected account") >>= fun _ =>
          (pure (some found) : Access (Option ResourceConnection))).exec v =
            (.ok (some connection), w)) :
        found = connection ∧ ∀ scope ∈ input.scopes,
          scope ∈ contextual.getD found.grantedScopes := by
      obtain ⟨_, hsubset, hanswer⟩ := exec_ofExcept_bind h
      have hfound := Except.ok.inj (congrArg Prod.fst hanswer)
      exact ⟨Option.some.inj hfound, assertScopeSubset_eq_ok.mp hsubset⟩
    by_cases hresolved : resolved.isSome
    · rw [if_pos hresolved] at hexec
      obtain ⟨rfl, hwithin⟩ := hcheck hexec
      exact ⟨s₃, s₃, resolved, hs, by rw [if_pos hresolved]; rfl, hwithin⟩
    · rw [if_neg hresolved] at hexec
      by_cases hempty : details.isEmpty
      · rw [if_pos hempty] at hexec
        obtain ⟨rfl, hwithin⟩ := hcheck hexec
        exact ⟨s₃, s₃, none, hs, by rw [if_neg hresolved, if_pos hempty]; rfl, hwithin⟩
      · rw [if_neg hempty] at hexec
        obtain ⟨contextual, s₄, hcontextual, hexec⟩ := exec_bind_inv hexec
        obtain ⟨rfl, hwithin⟩ := hcheck hexec
        refine ⟨s₃, s₄, contextual, hs, ?_, hwithin⟩
        rw [if_neg hresolved, if_neg hempty]
        exact hcontextual
  · obtain ⟨-, s₂, -, -, hexec⟩ := exec_reads_bind (by simp) hexec
    obtain ⟨grantorScopes, s₃, -, -, hexec⟩ := exec_reads_bind (by simp) hexec
    obtain ⟨-, -, hexec⟩ := exec_ofExcept_bind hexec
    obtain ⟨-, hexec⟩ := exec_require_bind hexec
    obtain ⟨-, -, hexec⟩ := exec_ofExcept_bind hexec
    cases Except.ok.inj (congrArg Prod.fst hexec)

/-- A permission that passes validation carries scopes of the account. -/
theorem within_of_permission {input : PermissionTarget} {actorUserId : Id} (hdetails : details ≠ [])
    (hexec : (validateAgentPermissionTarget resource input details actorUserId none).exec s =
      (.ok (some connection), t)) :
    ∃ u items, s.ReadTo u ∧ ReadsCatalog u resource connection details items ∧
      ∀ scope ∈ input.scopes, scope ∈ accountScopes connection items details := by
  obtain ⟨u, v, contextual, hu, hcontextual, hwithin⟩ := contextual_of_permission hexec
  have hempty : details.isEmpty = false := by simpa using hdetails
  simp only [Option.isSome_none, Bool.false_eq_true, if_false, hempty] at hcontextual
  obtain ⟨items, hitems, hscopes⟩ := readsCatalog_of_exec hcontextual
  rw [hscopes] at hwithin
  exact ⟨u, items, hu, hitems, hwithin⟩

/-- A direct permission in the detail of an item that states its scopes keeps to them. -/
theorem within_of_direct_permission {input : PermissionTarget} {actorUserId : Id}
    {scopes : List String}
    (hexec : (validateAgentPermissionTarget resource input details actorUserId
        (some scopes)).exec s =
      (.ok (some connection), t)) : ∀ scope ∈ input.scopes, scope ∈ scopes := by
  obtain ⟨u, v, contextual, -, hcontextual, hwithin⟩ := contextual_of_permission hexec
  rw [if_pos Option.isSome_some] at hcontextual
  have hresolved : some scopes = contextual := Except.ok.inj (congrArg Prod.fst hcontextual)
  rw [← hresolved] at hwithin
  exact hwithin

/-- The scopes that a request may reuse are scopes of the account. -/
theorem reusable_eq_accountScopes {reusable : Option (List String)}
    (hexternal : resource.requiresAccountConnection = true) (hactive : connection.status = .active)
    (hconcrete : concreteDetails resource details ≠ [])
    (hexec : (reusableAccountScopes resource (some connection) details).exec s =
      (.ok reusable, t)) :
    ∃ items, ReadsCatalog s resource connection details items ∧
      reusable = some (accountScopes connection items details) := by
  have hfilter : (some connection).filter (fun c => decide (c.status = .active)) =
      some connection := by simp [Option.filter, hactive]
  have hempty : (concreteDetails resource details).isEmpty = false := by simpa using hconcrete
  unfold reusableAccountScopes at hexec
  rw [hfilter] at hexec
  simp only [hexternal, Bool.not_true, Bool.false_eq_true, if_false, hempty] at hexec
  obtain ⟨contextual, u, hcontextual, hanswer⟩ := exec_bind_inv hexec
  obtain ⟨items, hitems, hscopes⟩ := readsCatalog_of_exec hcontextual
  have hreusable := Except.ok.inj (congrArg Prod.fst hanswer)
  exact ⟨items, hitems, by rw [← hreusable, hscopes]⟩

omit [Locale] in
theorem subset_of_authorized {c : IssuanceContext} {generation : ℕ} {e : Failure}
    {allowed : List String} {boundary : String} {β : Type} {b : β}
    {rest : ResolvedExternalAuthorization → Access β}
    (hexec : (do
      let found ← findExternalAuthorization c.request.resourceId (some generation)
      let authorization ← orThrow (found.filter ResolvedExternalAuthorization.active) e
      Procedure.ofExcept (assertScopeSubset c.scopes allowed boundary)
      rest authorization).exec s = (.ok b, t)) : ∀ scope ∈ c.scopes, scope ∈ allowed := by
  obtain ⟨found, u, -, -, hexec⟩ := exec_reads_bind (by simp) hexec
  obtain ⟨authorization, -, hexec⟩ := exec_orThrow_bind hexec
  obtain ⟨_, hsubset, -⟩ := exec_ofExcept_bind hexec
  exact assertScopeSubset_eq_ok.mp hsubset

/-- A token is issued with scopes of the account. -/
theorem within_of_issuance {c : IssuanceContext}
    {answer : ResolvedExternalAuthorization × ProviderCredential}
    (hdetails : c.request.authorizationDetails ≠ [])
    (hexec : (prepareExternalIssuance c connection).exec s = (.ok answer, t)) :
    ∃ items, ReadsCatalog s c.resource connection c.request.authorizationDetails items ∧
      ∀ scope ∈ c.scopes, scope ∈ accountScopes connection items
        c.request.authorizationDetails := by
  have hempty : c.request.authorizationDetails.isEmpty = false := by simpa using hdetails
  unfold prepareExternalIssuance at hexec
  simp only [hempty, Bool.false_eq_true, if_false] at hexec
  obtain ⟨contextual, u, hcontextual, hexec⟩ := exec_bind_inv hexec
  obtain ⟨items, hitems, hscopes⟩ := readsCatalog_of_exec hcontextual
  obtain ⟨credential, -, hexec⟩ := exec_ofExcept_bind hexec
  rw [exec_look_bind] at hexec
  refine ⟨items, hitems, ?_⟩
  rw [← hscopes]
  split at hexec
  · obtain ⟨generation, v, -, -, hexec⟩ := exec_reads_bind (by simp) hexec
    obtain ⟨-, hexec⟩ := exec_require_bind hexec
    exact subset_of_authorized hexec
  · exact subset_of_authorized hexec

end Callers

/-- The scopes that a permission, a request's reuse or a token may carry are those of the account,
and these stay within the scopes granted in each of the details exactly when an item without
scopes of its own opens nothing that another item restricts. -/
theorem connected_scopes_within_iff (resource : ApiResource) (connection : ResourceConnection)
    (details : List AuthorizationDetail) :
    (∀ items, (∀ scope ∈ accountScopes connection items details, ∀ detail ∈ details,
        scope ∈ detailScopes connection items detail) ↔ OpenOnlyToAll connection items details) ∧
    (∀ s t input actorUserId, details ≠ [] →
      (validateAgentPermissionTarget resource input details actorUserId none).exec s =
        (.ok (some connection), t) →
      ∃ u items, s.ReadTo u ∧ ReadsCatalog u resource connection details items ∧
        ∀ scope ∈ input.scopes, scope ∈ accountScopes connection items details) ∧
    (∀ s t input actorUserId scopes,
      (validateAgentPermissionTarget resource input details actorUserId (some scopes)).exec s =
        (.ok (some connection), t) → ∀ scope ∈ input.scopes, scope ∈ scopes) ∧
    (∀ s t reusable, resource.requiresAccountConnection = true → connection.status = .active →
      concreteDetails resource details ≠ [] →
      (reusableAccountScopes resource (some connection) details).exec s = (.ok reusable, t) →
      ∃ items, ReadsCatalog s resource connection details items ∧
        reusable = some (accountScopes connection items details)) ∧
    (∀ s t (c : IssuanceContext) answer, c.request.authorizationDetails ≠ [] →
      (prepareExternalIssuance c connection).exec s = (.ok answer, t) →
      ∃ items, ReadsCatalog s c.resource connection c.request.authorizationDetails items ∧
        ∀ scope ∈ c.scopes,
          scope ∈ accountScopes connection items c.request.authorizationDetails) := by
  refine ⟨fun items => accountScopes_within_iff, ?_, ?_, ?_, ?_⟩
  · intro s t input actorUserId hdetails hexec
    exact within_of_permission hdetails hexec
  · intro s t input actorUserId scopes hexec
    exact within_of_direct_permission hexec
  · intro s t reusable hexternal hactive hconcrete hexec
    exact reusable_eq_accountScopes hexternal hactive hconcrete hexec
  · intro s t c answer hdetails hexec
    exact within_of_issuance hdetails hexec

end Scopes

namespace Sample

def mailbox (name : String) : AuthorizationDetail :=
  .object [("type", .string "mailbox"), ("identifier", .string name)]

def mailConnector : Connector where
  id := "mail-connector"
  providerId := "mail"
  displayName := "Mail"
  enabled := true
  authenticationEnabled := false
  clientId := none
  clientSecret := none
  scopes := none
  providerMetadata := none
  resourceAuthorizationEnabled := true
  resourceClientId := some "client"
  resourceClientSecret := some "secret"
  resourceIssuer := some "https://mail"
  resourceAuthorizationEndpoint := some "https://mail/authorize"
  resourceTokenEndpoint := some "https://mail/token"
  resourceUserInfoEndpoint := some "https://mail/userinfo"
  resourceRevocationEndpoint := some "https://mail/revoke"
  resourceJwksEndpoint := some "https://mail/jwks"
  resourceRegistrationEndpoint := none
  resourceRegistrationMode := none
  resourceRegistrationClientUri := none
  resourceRegistrationAccessToken := none
  resourceRegisteredScopes := none
  resourceClientGeneration := 1
  resourceRetiredClientGenerations := []
  scopesSupported := []
  authorizationDetailsCatalogEndpoint := some "https://mail/catalog"
  authorizationDetailsCatalogScope := some "catalog"
  updatedAt := 0

def mail : ApiResource where
  id := "mail"
  identifier := "mail"
  resourceUrl := "https://mail"
  authorizationModel := .external
  connectorId := some "mail-connector"
  authorizationDetails := [.object [("type", .string "mailbox")]]
  enabled := true
  ownerOrganizationId := "o"
  visibility := .publicResource
  scopeRegistry := some [⟨"list", .automatic⟩, ⟨"write", .automatic⟩]
  availableToAgents := true
  deletedAt := none

def mailCredential : ProviderCredential where
  id := "credential"
  providerResourceAuthorizationId := "account"
  grantedScopes := ["catalog", "list", "write"]
  authorizationDetails := [mailbox "inbox", mailbox "archive"]
  clientGeneration := 1
  status := .active

def mailAccount : ResourceConnection where
  id := "account"
  providerConnectionId := "provider-connection"
  resourceId := "mail"
  status := .active
  owner := .user "u"
  credentials := [mailCredential]

/-- The inbox can only be listed; about the archive the catalog says nothing. -/
def mailItems : List CatalogItem := [⟨mailbox "inbox", some ["list"]⟩, ⟨mailbox "archive", none⟩]

def mailStore : Store where
  now := 0
  generated := 0
  directory := { directory with
    connectors := [mailConnector]
    providerConnections := [⟨"provider-connection", "mail-connector", .user "u", none, .active⟩]
    credentials := [mailCredential]
    resources := [mail]
    authorizations := [⟨"account", "provider-connection", "mail", .active, none⟩] }
  world := { world with catalogPages := 1, catalogPage := fun _ _ => .ok ⟨mailItems, 1, 100, 2, 1⟩ }
  requests := []
  entitlements := []
  leases := []
  audits := []

def mailboxes : List AuthorizationDetail := [mailbox "inbox", mailbox "archive"]

/-- Each mailbox has scopes of its own. -/
def statedItems : List CatalogItem :=
  [⟨mailbox "inbox", some ["list"]⟩, ⟨mailbox "archive", some ["list", "write"]⟩]

def statedStore : Store :=
  { mailStore with
    world := { world with
      catalogPages := 1, catalogPage := fun _ _ => .ok ⟨statedItems, 1, 100, 2, 1⟩ } }

theorem openOnlyToAll_stated : OpenOnlyToAll mailAccount statedItems mailboxes := by
  rintro - ⟨detail, hdetail, hopen⟩
  have hstated : ∀ d ∈ mailboxes, statedScopes statedItems d ≠ some none := by
    decide +kernel
  exact absurd hopen (hstated detail hdetail)

end Sample

/-- A permission for two mailboxes has the scopes of the account for both, which are granted in
each. -/
theorem connected_scopes_within_mailboxes :
    (∃ u items, Sample.statedStore.ReadTo u ∧
      ReadsCatalog u Sample.mail Sample.mailAccount Sample.mailboxes items ∧
      ∀ scope ∈ ["list"], scope ∈ accountScopes Sample.mailAccount items Sample.mailboxes) ∧
    ∀ scope ∈ accountScopes Sample.mailAccount Sample.statedItems Sample.mailboxes,
      ∀ detail ∈ Sample.mailboxes,
        scope ∈ detailScopes Sample.mailAccount Sample.statedItems detail := by
  obtain ⟨hwithin, hpermission, _⟩ :=
    connected_scopes_within_iff Sample.mail Sample.mailAccount Sample.mailboxes
  refine ⟨?_, (hwithin Sample.statedItems).mpr Sample.openOnlyToAll_stated⟩
  exact hpermission Sample.statedStore Sample.statedStore ⟨"a", ["list"], none⟩ "u"
    (List.cons_ne_nil _ _) (by rfl)

/-- A permission for two mailboxes passes with a scope that is not granted in the inbox, because
the catalog leaves the scopes of the archive open. -/
theorem open_item_lifts_restriction :
    (∃ t, (validateAgentPermissionTarget Sample.mail ⟨"a", ["write"], none⟩
      [Sample.mailbox "inbox", Sample.mailbox "archive"] "u" none).exec Sample.mailStore =
        (.ok (some Sample.mailAccount), t)) ∧
    ReadsCatalog Sample.mailStore Sample.mail Sample.mailAccount
      [Sample.mailbox "inbox", Sample.mailbox "archive"] Sample.mailItems ∧
    "write" ∉ detailScopes Sample.mailAccount Sample.mailItems (Sample.mailbox "inbox") := by
  refine ⟨⟨Sample.mailStore, by rfl⟩, ⟨Sample.mailStore, by rfl⟩, by decide +kernel⟩

end FlareAuth
