import FlareAuth.AccessProgram
import FlareAuth.ApplicationProgram

/-!
# OAuth clients that mirror their Applications

The scopes of a client are written where its Application is created or updated.
The updates of Resource Servers narrow the Application alone, so a client keeps
its mirror exactly as long as these take no scope from an Application and an
update finds the Application that it read.
-/

namespace FlareAuth.Applications

open Concurrent Relational Procedure
open ResourceServers (ResourceScopesConfiguration UpdateApiResource Discovery)

namespace Store

/-- Every client has the OIDC scopes of its Application and then the scopes of its resources. -/
def Mirrored (s : Store) : Prop :=
  ∀ a ∈ s.applications.rows, (s.clients.find a.oauthClientId).map (·.scopes) = some a.clientScopes

instance (s : Store) : Decidable s.Mirrored := inferInstanceAs (Decidable (∀ _ ∈ _, _))

/-- No two Applications have one client. -/
def Linked (s : Store) : Prop := (s.applications.rows.map (·.oauthClientId)).Nodup

instance (s : Store) : Decidable s.Linked := inferInstanceAs (Decidable (List.Nodup _))

/-- Applications stay, with their clients. -/
def Retains (s t : Store) : Prop :=
  ∀ id a, s.applications.find id = some a →
    ∃ b, t.applications.find id = some b ∧ b.oauthClientId = a.oauthClientId

end Store

/-- The operation writes no Application's scopes alone: an update of an Application finds the
scopes that it read, unless it replaces them, and what narrows Applications takes no scope. -/
def Operation.KeepsMirror : Operation → Store → Prop
  | .updateApplication id patch current, s =>
    patch.setsScopes = true → s.allActive (patch.resourceScopes.getD []) = true →
      ∀ a, s.applications.find id = some a →
        (patch.application a).clientScopes = (patch.application current).clientScopes
  | .updateResource id patch writes, s =>
    Repository.keyTaken id patch s = false →
      ∀ a ∈ s.applications.rows, (a.written writes).clientScopes = a.clientScopes
  | .replaceResourceDiscovery _ _ writes, s =>
    ∀ a ∈ s.applications.rows, (a.written writes).clientScopes = a.clientScopes
  | .deleteResource id _, s =>
    ∀ a ∈ s.applications.rows, (Repository.withoutResource id a).clientScopes = a.clientScopes
  | _, _ => True

/-- What the program promises of an operation: a new client mirrors its Application, and an update
writes from an Application that the call has read. -/
def Guarantee (log : Log Store Operation) (_ : Store) : Operation → Prop
  | .createApplication client application =>
    client.clientId = application.oauthClientId ∧ client.scopes = application.clientScopes
  | .updateApplication id _ current => ∃ e ∈ log, e.before.applications.find id = some current
  | _ => True

section Steps

variable {s : Store}

theorem perform_updateResource (id : Id) (patch : UpdateApiResource) (writes : List ScopeWrite) :
    (Operation.updateResource id patch writes).perform s =
      if Repository.keyTaken id patch s then s
      else Repository.writeScopes writes (Repository.patchResource id patch s) := by
  unfold Operation.perform Repository.updateResource
  by_cases htaken : Repository.keyTaken id patch s = true
  · rw [if_pos htaken]
    apply Batch.settle_of_error
    · apply Batch.bind_of_error
      rw [Repository.updateRow, if_pos htaken]
  · rw [if_neg htaken]
    have hrow : Repository.updateRow id patch s = .ok
        (s.resources.rows.any (ResourceServers.Repository.live id),
          Repository.patchResource id patch s) := by
      rw [Repository.updateRow, if_neg htaken]
    apply Batch.settle_of_ok
    rw [Batch.bind_of_ok hrow]
    rfl

/-- Rewriting Applications under their clients keeps the mirror if and only if it keeps the
scopes. -/
theorem mirrored_rewrite {t : Store} {f : Application → Application}
    (hrows : t.applications.rows = s.applications.rows.map f) (hclients : t.clients = s.clients)
    (hf : ∀ a, (f a).oauthClientId = a.oauthClientId) (h : s.Mirrored) :
    t.Mirrored ↔ ∀ a ∈ s.applications.rows, (f a).clientScopes = a.clientScopes := by
  have hfound : ∀ a, t.clients.find (f a).oauthClientId = s.clients.find a.oauthClientId := by
    intro a
    rw [hf, hclients]
  constructor
  · intro hmirror a ha
    have hafter := hmirror (f a) (by rw [hrows]; exact List.mem_map_of_mem ha)
    rw [hfound, h a ha] at hafter
    exact (Option.some.inj hafter).symm
  · intro hkeeps b hb
    rw [hrows] at hb
    obtain ⟨a, ha, rfl⟩ := List.mem_map.mp hb
    rw [hfound, h a ha, hkeeps a ha]

theorem rows_update_all {α β : Type} {key : α → β} (t : Keyed key) (f : α → α)
    (hf : ∀ r, key (f r) = key r) : (t.update (fun _ => true) f hf).rows = t.rows.map f := by
  simp [Keyed.update, updateWhere]

section Update

variable {id : Id} {patch : ApplicationPatch} {current a₀ : Application}

theorem clientScopes_of_not_setsScopes (h : patch.setsScopes = false) (a : Application) :
    (patch.application a).clientScopes = a.clientScopes := by
  rw [ApplicationPatch.setsScopes, Bool.or_eq_false_iff] at h
  obtain ⟨hoidc, hresource⟩ := h
  rw [Option.isSome_eq_false_iff, Option.isNone_iff_eq_none] at hoidc hresource
  simp [ApplicationPatch.application, Application.clientScopes, hoidc, hresource]

theorem perform_updateApplication : (Operation.updateApplication id patch current).perform s =
    { s with
      applications := s.applications.update
        (fun a => a.id == id && s.allActive (patch.resourceScopes.getD [])) patch.application
        patch.application_id
      clients := s.clients.update
        (fun c => c.clientId == current.oauthClientId &&
          s.allActive (patch.resourceScopes.getD [])) (patch.client current)
        (patch.client_clientId current) } := rfl

/-- An update that finds an inactive resource writes nothing. -/
theorem mirrored_update_inactive (h : s.Mirrored)
    (hactive : s.allActive (patch.resourceScopes.getD []) = false) :
    ((Operation.updateApplication id patch current).perform s).Mirrored := by
  have hnone : ∀ {α β : Type} {key : α → β} (t : Keyed key) (p : α → Bool) (f : α → α)
      (hf : ∀ r, key (f r) = key r), (∀ r, p r = false) → t.update p f hf = t := by
    intro α β key t p f hf hp
    rw [Keyed.mk.injEq]
    refine updateWhere_eq_self fun r _ hr => ?_
    rw [hp r] at hr
    cases hr
  have hstore : (Operation.updateApplication id patch current).perform s = s := by
    rw [perform_updateApplication, hnone, hnone]
    · intro c
      rw [hactive, Bool.and_false]
    · intro a
      rw [hactive, Bool.and_false]
  rwa [hstore]

/-- What an update of active resources leaves of an Application that is still there, and of its
client. -/
theorem mirrored_update_active (hlinked : s.Linked) (h : s.Mirrored)
    (hactive : s.allActive (patch.resourceScopes.getD []) = true)
    (hfound : s.applications.find id = some a₀)
    (hclient : a₀.oauthClientId = current.oauthClientId) :
    ((Operation.updateApplication id patch current).perform s).Mirrored ↔
      (if patch.setsScopes then (patch.application current).clientScopes else a₀.clientScopes) =
        (patch.application a₀).clientScopes := by
  obtain ⟨hmem, hid⟩ := Keyed.find_eq_some.mp hfound
  have hself : ∀ a ∈ s.applications.rows, a.id = id → a = a₀ := by
    intro a ha haid
    exact eq_of_key_eq s.applications.nodup ha hmem (haid.trans hid.symm)
  have hother : ∀ a ∈ s.applications.rows, a.oauthClientId = current.oauthClientId → a = a₀ := by
    intro a ha haclient
    exact eq_of_key_eq hlinked ha hmem (haclient.trans hclient.symm)
  have hclients : ∀ k, ((Operation.updateApplication id patch current).perform s).clients.find k =
      (s.clients.find k).map fun c =>
        if c.clientId = current.oauthClientId then patch.client current c else c := by
    intro k
    rw [perform_updateApplication, Keyed.find_update]
    simp only [hactive, Bool.and_true, beq_iff_eq]
  have hrows : ((Operation.updateApplication id patch current).perform s).applications.rows =
      s.applications.rows.map fun a => if a.id = id then patch.application a else a := by
    rw [perform_updateApplication]
    simp only [Keyed.update, updateWhere, hactive, Bool.and_true, beq_iff_eq]
  -- the client of the updated Application, and that of any other one
  have hnew : (((Operation.updateApplication id patch current).perform s).clients.find
      a₀.oauthClientId).map (·.scopes) =
      some (if patch.setsScopes then (patch.application current).clientScopes
        else a₀.clientScopes) := by
    obtain ⟨c, hc, hscopes⟩ := Option.map_eq_some_iff.mp (h a₀ hmem)
    have hcid : c.clientId = current.oauthClientId := (Keyed.find_eq_some.mp hc).2.trans hclient
    rw [hclients, hc, Option.map_some, if_pos hcid, Option.map_some, ← hscopes]
    rfl
  have hold : ∀ a ∈ s.applications.rows, a ≠ a₀ →
      (((Operation.updateApplication id patch current).perform s).clients.find
        a.oauthClientId).map (·.scopes) = some a.clientScopes := by
    intro a ha hne
    obtain ⟨c, hc, hscopes⟩ := Option.map_eq_some_iff.mp (h a ha)
    have hcid : c.clientId ≠ current.oauthClientId := by
      intro heq
      exact hne (hother a ha ((Keyed.find_eq_some.mp hc).2.symm.trans heq))
    rw [hclients, hc, Option.map_some, if_neg hcid, Option.map_some, hscopes]
  constructor
  · intro hmirror
    have hafter := hmirror (patch.application a₀) (by
      rw [hrows]
      exact List.mem_map.mpr ⟨a₀, hmem, if_pos hid⟩)
    have hkey : (patch.application a₀).oauthClientId = a₀.oauthClientId := rfl
    rw [hkey, hnew] at hafter
    exact Option.some.inj hafter
  · intro hscopes b hb
    rw [hrows] at hb
    obtain ⟨a, ha, rfl⟩ := List.mem_map.mp hb
    by_cases haid : a.id = id
    · obtain rfl := hself a ha haid
      have hkey : (patch.application a).oauthClientId = a.oauthClientId := rfl
      rw [if_pos haid, hkey, hnew, hscopes]
    · have hne : a ≠ a₀ := fun heq => haid (heq ▸ hid)
      rw [if_neg haid]
      exact hold a ha hne

/-- The step of an update of an Application that is still there. -/
theorem mirrored_updateApplication (hlinked : s.Linked) (h : s.Mirrored)
    (hfound : s.applications.find id = some a₀)
    (hclient : a₀.oauthClientId = current.oauthClientId) :
    ((Operation.updateApplication id patch current).perform s).Mirrored ↔
      (Operation.updateApplication id patch current).KeepsMirror s := by
  cases hactive : s.allActive (patch.resourceScopes.getD []) with
  | false =>
    refine ⟨fun _ _ htrue => ?_, fun _ => mirrored_update_inactive h hactive⟩
    rw [hactive] at htrue
    cases htrue
  | true =>
    rw [mirrored_update_active hlinked h hactive hfound hclient]
    cases hsets : patch.setsScopes with
    | false =>
      rw [clientScopes_of_not_setsScopes hsets a₀, if_neg Bool.false_ne_true]
      refine ⟨fun _ htrue => ?_, fun _ => rfl⟩
      rw [hsets] at htrue
      cases htrue
    | true =>
      rw [if_pos rfl]
      constructor
      · intro heq _ _ a ha
        obtain rfl : a₀ = a := Option.some.inj (hfound.symm.trans ha)
        exact heq.symm
      · intro hkeeps
        exact (hkeeps hsets hactive a₀ hfound).symm

end Update

/-- A new client comes with its Application; every other mirror stays. -/
theorem mirrored_create {client : OAuthClient} {application : Application} (h : s.Mirrored)
    (hkey : client.clientId = application.oauthClientId)
    (hscopes : client.scopes = application.clientScopes) :
    ((Operation.createApplication client application).perform s).Mirrored := by
  change ((Repository.create client application).settle s).Mirrored
  unfold Batch.settle Repository.create
  split
  · rename_i t hcreated
    split at hcreated
    · cases hcreated
    · split at hcreated
      · rename_i clients applications hclients happlications
        cases hcreated
        intro a ha
        dsimp only at ha ⊢
        rw [(Keyed.insert?_eq_some happlications).1] at ha
        rcases List.mem_append.mp ha with ha | ha
        · obtain ⟨c, hc, hcscopes⟩ := Option.map_eq_some_iff.mp (h a ha)
          rw [Keyed.find_insert?_of_some hclients hc, Option.map_some, hcscopes]
        · obtain rfl := List.mem_singleton.mp ha
          rw [← hkey, Keyed.find_insert?_self hclients, Option.map_some, hscopes]
      · cases hcreated
  · exact h

/-- One step keeps the mirror if and only if it meets the condition. -/
theorem mirrored_step {op : Operation} (hlinked : s.Linked) (h : s.Mirrored)
    (hop : match op with
      | .createApplication client application =>
        client.clientId = application.oauthClientId ∧ client.scopes = application.clientScopes
      | .updateApplication id _ current => ∃ a, s.applications.find id = some a ∧
        a.oauthClientId = current.oauthClientId
      | _ => True) : (op.perform s).Mirrored ↔ op.KeepsMirror s := by
  have hsame : ∀ t : Store, t.applications = s.applications → t.clients = s.clients →
      (t.Mirrored ↔ True) := by
    intro t happlications hclients
    refine ⟨fun _ => trivial, fun _ => ?_⟩
    intro a ha
    rw [hclients]
    rw [happlications] at ha
    exact h a ha
  have hwrites : ∀ (writes : List ScopeWrite) (t : Store), t.applications = s.applications →
      t.clients = s.clients → ((Repository.writeScopes writes t).Mirrored ↔
        ∀ a ∈ s.applications.rows, (a.written writes).clientScopes = a.clientScopes) := by
    intro writes t happlications hclients
    refine mirrored_rewrite ?_ hclients (Application.written_oauthClientId writes) h
    rw [Repository.writeScopes, rows_update_all, happlications]
  cases op with
  | createApplication client application =>
    exact ⟨fun _ => trivial, fun _ => mirrored_create h hop.1 hop.2⟩
  | updateApplication id patch current =>
    obtain ⟨a, hfound, hclient⟩ := hop
    exact mirrored_updateApplication hlinked h hfound hclient
  | updateResource id patch writes =>
    rw [perform_updateResource]
    cases htaken : Repository.keyTaken id patch s with
    | true =>
      rw [if_pos rfl]
      refine ⟨fun _ hfalse => ?_, fun _ => h⟩
      rw [htaken] at hfalse
      cases hfalse
    | false =>
      rw [if_neg Bool.false_ne_true, hwrites writes (Repository.patchResource id patch s) rfl rfl]
      exact ⟨fun hkeeps _ => hkeeps, fun hkeeps => hkeeps htaken⟩
  | replaceResourceDiscovery id registry writes => exact hwrites writes _ rfl rfl
  | deleteResource id now =>
    exact mirrored_rewrite (rows_update_all _ _ (Repository.withoutResource_id id)) rfl
      (fun _ => rfl) h
  | read => exact hsame _ rfl rfl
  | generateId => exact hsame _ rfl rfl
  | elapse milliseconds => exact hsame _ rfl rfl
  | organizations rows => exact hsame _ rfl rfl
  | createResource row => exact hsame _ rfl rfl

/-- What a step does to the Applications: nothing, an update that keeps the clients, or an insert
with a client that no other one has. -/
theorem applications_step (op : Operation) (s : Store) :
    (op.perform s).applications = s.applications ∨
    (∃ p f hf, (∀ a, (f a).oauthClientId = a.oauthClientId) ∧
      (op.perform s).applications = s.applications.update p f hf) ∨
    ∃ a, s.applications.insert? a = some (op.perform s).applications ∧
      ∀ b ∈ s.applications.rows, b.oauthClientId ≠ a.oauthClientId := by
  cases op with
  | createApplication client application =>
    change ((Repository.create client application).settle s).applications = _ ∨ _ ∨ ∃ a,
      s.applications.insert? a =
        some ((Repository.create client application).settle s).applications ∧ _
    unfold Batch.settle Repository.create
    split
    · rename_i t hcreated
      split at hcreated
      · cases hcreated
      · rename_i hfresh
        split at hcreated
        · rename_i clients applications hclients happlications
          cases hcreated
          refine .inr (.inr ⟨application, happlications, fun b hb heq => hfresh ?_⟩)
          rw [List.any_eq_true]
          exact ⟨b, hb, decide_eq_true heq⟩
        · cases hcreated
    · exact .inl rfl
  | updateApplication id patch current =>
    rw [perform_updateApplication]
    exact .inr (.inl ⟨_, patch.application, patch.application_id, fun _ => rfl, rfl⟩)
  | updateResource id patch writes =>
    rw [perform_updateResource]
    split
    · exact .inl rfl
    · exact .inr (.inl ⟨_, _, Application.written_id writes,
        Application.written_oauthClientId writes, rfl⟩)
  | replaceResourceDiscovery id registry writes =>
    exact .inr (.inl ⟨_, _, Application.written_id writes,
      Application.written_oauthClientId writes, rfl⟩)
  | deleteResource id now =>
    exact .inr (.inl ⟨_, Repository.withoutResource id, Repository.withoutResource_id id,
      fun _ => rfl, rfl⟩)
  | read => exact .inl rfl
  | generateId => exact .inl rfl
  | elapse milliseconds => exact .inl rfl
  | organizations rows => exact .inl rfl
  | createResource row => exact .inl rfl

theorem retains_step (op : Operation) (s : Store) : s.Retains (op.perform s) := by
  intro id a ha
  rcases applications_step op s with heq | ⟨p, f, hf, hclient, heq⟩ | ⟨b, hinsert, _⟩
  · rw [heq]
    exact ⟨a, ha, rfl⟩
  · rw [heq, Keyed.find_update, ha, Option.map_some]
    refine ⟨_, rfl, ?_⟩
    split
    · exact hclient a
    · rfl
  · exact ⟨a, Keyed.find_insert?_of_some hinsert ha, rfl⟩

theorem linked_step (op : Operation) (s : Store) (h : s.Linked) : (op.perform s).Linked := by
  unfold Store.Linked
  rcases applications_step op s with heq | ⟨p, f, hf, hclient, heq⟩ | ⟨b, hinsert, hfresh⟩
  · rw [heq]
    exact h
  · rw [heq]
    exact nodup_map_updateWhere (fun a _ => hclient a) h
  · rw [(Keyed.insert?_eq_some hinsert).1]
    exact nodup_map_append_singleton h hfresh

end Steps

theorem retains_evolution : Evolution Operation Store.Retains where
  refl s id a ha := ⟨a, ha, rfl⟩
  trans s t u hst htu id a ha := by
    obtain ⟨b, hb, hba⟩ := hst id a ha
    obtain ⟨c, hc, hcb⟩ := htu id b hb
    exact ⟨c, hc, hcb.trans hba⟩
  step op s := retains_step op s

section Contract

def Operation.Promised : Operation → Prop
  | .createApplication client application =>
    client.clientId = application.oauthClientId ∧ client.scopes = application.clientScopes
  | .updateApplication _ _ _ => False
  | _ => True

theorem Operation.Promised.guarantee {op : Operation} (h : op.Promised)
    (log : Log Store Operation) (s : Store) : Guarantee log s op := by
  cases op with
  | createApplication client application => exact h
  | updateApplication id patch current => exact h.elim
  | _ => trivial

variable {α : Type}

@[simp] theorem only_ask (answer : Store → α) : (ask answer).Only Operation.Promised :=
  only_query.mpr trivial

@[simp] theorem only_generateId : generateId.Only Operation.Promised := only_query.mpr trivial

@[simp] theorem only_commit {op : Operation} {batch : StoreBatch α} :
    (commit op batch).Only Operation.Promised ↔ op.Promised := by
  simp [commit]

@[simp] theorem only_requirePlatformOrganization :
    requirePlatformOrganization.Only Operation.Promised := by
  simp [requirePlatformOrganization]

@[simp] theorem only_validateApplicationResourceScopes (ownerOrganizationId : Id)
    (configurations : List ResourceScopesConfiguration) (existing : List Id) :
    (validateApplicationResourceScopes ownerOrganizationId configurations existing).Only
      Operation.Promised := by
  simp [validateApplicationResourceScopes]

@[simp] theorem only_validateTokenExchangePolicies (ownerOrganizationId : Id)
    (allowedGrantTypes : List GrantType) (policies : List TokenExchange.TokenExchangePolicy)
    (resourceScopes : List ResourceScopesConfiguration) :
    (validateTokenExchangePolicies ownerOrganizationId allowedGrantTypes policies
      resourceScopes).Only Operation.Promised := by
  simp [validateTokenExchangePolicies]

@[simp] theorem only_requireApplication (id : Id) :
    (requireApplication id).Only Operation.Promised := by
  simp [requireApplication]

theorem only_createApplication (rules : UriRules) (input : CreateApplication) :
    (createApplication rules input).Only Operation.Promised := by
  simp [createApplication, requireActiveOrganization, Operation.Promised]

@[simp] theorem only_getResource (id : Id) : (getResource id).Only Operation.Promised := by
  simp [getResource]

@[simp] theorem only_updateApiResource (id : Id) (patch : UpdateApiResource) :
    (Repository.updateApiResource id patch).Only Operation.Promised := by
  unfold Repository.updateApiResource
  simp only [only_ite, only_commit, Operation.Promised, only_bind, only_ask, true_and]
  refine ⟨fun _ => trivial, fun _ resource _ => ?_⟩
  cases resource with
  | none => exact trivial
  | some resource => simp [Operation.Promised]

@[simp] theorem only_replaceDiscovery (id : Id) (registry : List ResourceScope) :
    (Repository.replaceDiscovery id registry).Only Operation.Promised := by
  simp [Repository.replaceDiscovery, Operation.Promised]

@[simp] theorem only_requireNewOwner (ownerOrganizationId : Option Id) :
    (requireNewOwner ownerOrganizationId).Only Operation.Promised := by
  unfold requireNewOwner
  split <;> simp

theorem only_updateResource (d : Discovery) (id : Id) (input : UpdateApiResource) :
    (updateResource d id input).Only Operation.Promised := by
  unfold updateResource
  simp only [only_bind, only_getResource, only_require, only_ofExcept, only_requireNewOwner,
    only_ite, only_requirePlatformOrganization, only_updateApiResource, true_and]
  intro resource _ _ _ _ _ _ _
  refine ⟨fun _ platform _ _ _ changes _ updated _ _ _ => ?_, fun _ changes _ updated _ _ _ => ?_⟩
  · split <;> simp
  · split <;> simp

theorem only_deleteResource (id : Id) : (deleteResource id).Only Operation.Promised := by
  simp [deleteResource, Operation.Promised]

/-- A procedure whose operations keep their promises. -/
theorem obeys_promised {p : Registry α} (hp : p.Only Operation.Promised)
    (log : Log Store Operation) : Obeys Guarantee (fun _ _ => True) p log :=
  hp.obeys (fun log s _ h => h.guarantee log s) (fun _ _ _ _ => trivial) fun _ _ _ => trivial

theorem obeys_repository_updateApplication (id : Id) (patch : ApplicationPatch)
    (log : Log Store Operation) :
    Obeys Guarantee (fun _ _ => True) (Repository.updateApplication id patch) log := by
  intro s
  refine ⟨trivial, ?_⟩
  refine obeys_orThrow_bind (fun current hcurrent => ?_) fun _ => trivial
  intro t
  refine ⟨⟨_, List.mem_cons_self, hcurrent⟩, obeys_promised ?_ _⟩
  refine only_bind.mpr ⟨only_ofExcept _, fun updated _ => ?_⟩
  simp

@[simp] theorem only_updatePatch (rules : UriRules) (id : Id) (input : UpdateApplication) :
    (updatePatch rules id input).Only Operation.Promised := by
  unfold updatePatch
  simp only [only_bind, only_requireApplication, only_ofExcept, only_requirePlatformOrganization,
    only_require, true_and]
  rintro ⟨application, client⟩ - settings - postLogoutRedirectUris - corsOrigins - platform - _ -
  cases input.resourceScopes <;> simp

theorem obeys_updateApplication (rules : UriRules) (id : Id) (input : UpdateApplication) :
    Obeys Guarantee (fun _ _ => True) (updateApplication rules id input) [] := by
  refine (only_updatePatch rules id input).obeys_bind (fun log s _ h => h.guarantee log s)
    (fun log patch _ _ => ?_) fun _ _ _ => trivial
  refine (obeys_repository_updateApplication id patch log).bind (fun log' _ _ _ => ?_)
    fun _ _ _ => trivial
  exact obeys_promised (only_requireApplication id) log'

theorem obeys_program (call : Call) :
    call.program.Obeys Guarantee (fun _ _ => True) [] := by
  cases call with
  | createApplication rules input =>
    exact obeys_promised (by simp [Call.program, only_createApplication]) []
  | updateApplication rules id input =>
    exact (obeys_updateApplication rules id input).bind
      (fun _ _ _ _ => trivial) fun _ _ _ => trivial
  | updateResource d id input =>
    exact obeys_promised (by simp [Call.program, only_updateResource]) []
  | replaceResourceDiscovery id registry => exact obeys_promised (by simp [Call.program]) []
  | deleteResource id => exact obeys_promised (by simp [Call.program, only_deleteResource]) []
  | elapse milliseconds => exact obeys_promised (by simp [Call.program, Operation.Promised]) []
  | organizations rows => exact obeys_promised (by simp [Call.program, Operation.Promised]) []
  | createResource row => exact obeys_promised (by simp [Call.program, Operation.Promised]) []

end Contract

/-- The stores that runs start from: no two Applications have one client, and every client mirrors
its Application. -/
def Store.Sound (s : Store) : Prop := s.Linked ∧ s.Mirrored

abbrev ClientReachable (ok : ClientPool → Move Call → Prop) : ClientPool → Prop :=
  Reachable Call.program Store.Sound ok

/-- The operation of a move meets the condition on the store that it finds. -/
def Keeping (pool : ClientPool) : Move Call → Prop
  | .start _ => True
  | .resume i => ∀ t op, pool.pending i = some (t, op) → op.KeepsMirror pool.store

namespace Sample

/-- A small deployment with one resource and no Application yet. -/
def store : Store where
  now := 0
  generated := 0
  organizations := [⟨"o", "realmroot", false⟩]
  resources := ⟨[FlareAuth.Sample.notes], by decide⟩
  clients := .empty _
  applications := .empty _

theorem store_sound : store.Sound := ⟨List.nodup_nil, fun _ h => nomatch h⟩

def rules : UriRules := ⟨fun _ _ _ => .ok (), fun _ => .ok ()⟩

def input : CreateApplication where
  clientType := .confidentialWeb
  visibility := none
  ownerOrganizationId := "o"
  consentRequired := none
  redirectUris := ["https://app/callback"]
  postLogoutRedirectUris := none
  corsOrigins := none
  resourceScopes := some [⟨"notes", ["read"]⟩]
  tokenExchangePolicies := none
  deviceLoginEnabled := none

def run (moves : List (Move Call)) : Option ClientPool :=
  (Pool.initial store).run Call.program (fun _ _ => true) moves

theorem reachable_of_run {moves : List (Move Call)} {check : ClientPool → Bool}
    (h : (run moves).any check = true) :
    ∃ pool, ClientReachable (Unrestricted _ _ _ _ _) pool ∧ check pool = true :=
  Reachable.of_any (fun _ _ _ => trivial) (.initial store_sound) h

end Sample

/-- A step of a reachable pool keeps the mirror if and only if it meets the condition. -/
theorem mirrored_pending {ok : ClientPool → Move Call → Prop} {pool : ClientPool}
    (h : ClientReachable ok pool) {i : ℕ} {t : Thread Call Store Operation Failure Reply}
    {op : Operation} (hpending : pool.pending i = some (t, op)) (hmirror : pool.store.Mirrored) :
    (apply op pool.store).Mirrored ↔ op.KeepsMirror pool.store := by
  have hlinked : pool.store.Linked :=
    h.invariant (fun s hs => hs.1) (fun op s hs => linked_step op s hs) _ List.mem_cons_self
  obtain ⟨ht, hguarantee⟩ :=
    h.pending_obeys (G := fun _ => Guarantee) (Q := fun _ _ _ => True) obeys_program hpending
  apply mirrored_step hlinked hmirror
  cases op with
  | createApplication client application => exact hguarantee
  | updateApplication id patch current =>
    obtain ⟨e, he, hfound⟩ := hguarantee
    exact h.evolves_before retains_evolution ht he id current hfound
  | _ => trivial

/-- A run keeps every client the mirror of its Application if and only if each of its steps meets
the condition. -/
theorem client_mirrors_application {pool : ClientPool}
    (h : ClientReachable (Unrestricted _ _ _ _ _) pool) :
    (∀ s ∈ pool.history, s.Mirrored) ↔ ClientReachable Keeping pool := by
  constructor
  · intro hmirror
    induction h with
    | initial hs => exact .initial hs
    | @next pool pool' m hpool _ hnext ih =>
      cases m with
      | start call =>
        have hsame : pool'.history = pool.history := by
          simp only [Pool.next, Option.some.injEq] at hnext
          subst hnext
          rfl
        have hok : Keeping pool (.start call) := trivial
        rw [hsame] at hmirror
        exact .next (ih hmirror) hok hnext
      | resume i =>
        obtain ⟨t, op, after, ht, hrest, hstore, hpast, _⟩ := Pool.next_resume hnext
        have hbefore : ∀ s ∈ pool.history, s.Mirrored := by
          intro s hs
          apply hmirror s
          rw [Pool.history, hpast]
          exact List.mem_cons_of_mem _ hs
        have hafter : (apply op pool.store).Mirrored := by
          rw [← hstore]
          exact hmirror _ List.mem_cons_self
        refine .next (ih hbefore) ?_ hnext
        intro u op' hpending
        have hsame := Pool.pending_of_step ht hrest
        obtain ⟨rfl, rfl⟩ : t = u ∧ op = op' := by simpa using hsame.symm.trans hpending
        exact (mirrored_pending hpool hpending (hbefore _ List.mem_cons_self)).mp hafter
  · intro hkeeping
    induction hkeeping with
    | @initial s hs =>
      intro t ht
      obtain rfl : t = s := by simpa [Pool.history, Pool.initial] using ht
      exact hs.2
    | @next pool pool' m hpool hm hnext ih =>
      have hmirror := ih (hpool.mono fun _ _ _ => trivial)
      cases m with
      | start call =>
        simp only [Pool.next, Option.some.injEq] at hnext
        subst hnext
        exact hmirror
      | resume i =>
        obtain ⟨t, op, after, ht, hrest, hstore, hpast, _⟩ := Pool.next_resume hnext
        have hpending := Pool.pending_of_step ht hrest
        intro s hs
        rw [Pool.history, hstore, hpast] at hs
        rcases List.mem_cons.mp hs with rfl | hs
        · exact (mirrored_pending hpool hpending (hmirror _ List.mem_cons_self)).mpr
            (hm t op hpending)
        · exact hmirror s hs

/-- An Application is created, and then its resource is deleted. -/
def deletion : List (Move Call) :=
  Move.alone 0 (.createApplication Sample.rules Sample.input) 6 ++
    Move.alone 1 (.deleteResource "notes") 4

/-- The scope of a deleted resource stays with the client. -/
theorem client_keeps_deleted_scope : ∃ pool, ClientReachable (Unrestricted _ _ _ _ _) pool ∧
    ∃ s ∈ pool.history, ¬s.Mirrored := by
  have hrun : (Sample.run deletion).any (fun pool => !decide pool.store.Mirrored) = true := by
    decide +kernel
  obtain ⟨pool, hreach, hcheck⟩ := Sample.reachable_of_run hrun
  rw [Bool.not_eq_true', decide_eq_false_iff_not] at hcheck
  exact ⟨pool, hreach, pool.store, List.mem_cons_self, hcheck⟩

theorem client_mirrors_application_sample : ∃ pool, pool.store.applications.rows ≠ [] ∧
    ((∀ s ∈ pool.history, s.Mirrored) ↔ ClientReachable Keeping pool) := by
  have hrun : (Sample.run (Move.alone 0 (.createApplication Sample.rules Sample.input) 6)).any
      (fun pool => !pool.store.applications.rows.isEmpty) = true := by
    decide +kernel
  obtain ⟨pool, hreach, hcheck⟩ := Sample.reachable_of_run hrun
  exact ⟨pool, by simpa using hcheck, client_mirrors_application hreach⟩

end FlareAuth.Applications
