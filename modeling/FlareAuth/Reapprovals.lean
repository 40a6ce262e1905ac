import FlareAuth.ApprovalRuns
import FlareAuth.StrongestGrants

/-!
# Approvals over grants that came before

An approval takes an entitlement for existing when it has neither ended nor
expired; the unique index on entitlements only asks whether it has ended. The
two agree except on grants which have lapsed and were never ended.
-/

namespace FlareAuth

open Concurrent Procedure Access Relational Repository Statement

/-- No row has an identifier that is generated from now on. -/
def Store.FreshIds (s : Store) : Prop :=
  ∀ e ∈ s.entitlements, ∀ n, s.generated ≤ n → e.id ≠ generatedId n

section Contexts

variable [Locale]

namespace ApprovalContext

variable (c : ApprovalContext)

/-- Whatever holds a key of the context is what the approval reuses for its scope. -/
def Unblocked (s : Store) : Prop :=
  ∀ scope ∈ c.request.scopes, ∀ e ∈ s.entitlements, e.activeKey = some (c.key scope) →
    c.reused s scope = some e

end ApprovalContext

variable {c : ApprovalContext} {s : Store} {scope : String} {e : ScopeEntitlement} {n : ℕ}

structure ApprovalContext.Reuses (c : ApprovalContext) (s : Store) (scope : String)
    (e : ScopeEntitlement) : Prop where
  mem : e ∈ s.entitlements
  subject : e.subject = .agent c.request.agentIdentityId
  ended : e.ended = none
  unexpired : e.unexpired c.now = true
  resource : e.resourceServerId = c.request.resourceId
  connection : e.connectionId = c.connectionId
  details : exactAuthorizationDetails e.authorizationDetails c.authorizationDetails = true
  scope : e.scope = scope

theorem reuses_of_reused (h : c.reused s scope = some e) : c.Reuses s scope e := by
  have hscope := List.find?_some h
  rw [decide_eq_true_eq] at hscope
  have hmem := List.mem_of_find?_eq_some h
  obtain ⟨hlisted, hequivalent⟩ := List.mem_filter.mp hmem
  obtain ⟨hrow, hended, hsubject, hresource, hconnection⟩ := ApprovalContext.of_listed hmem
  have hactive := (mem_listActiveEntitlementsByAgent.mp hlisted).2.2
  rw [ScopeEntitlement.active, Bool.and_eq_true] at hactive
  rw [ApprovalContext.equivalent, Bool.and_eq_true] at hequivalent
  exact ⟨hrow, hsubject, hended, hactive.2, hresource, hconnection, hequivalent.2, hscope⟩

/-- The key of a reused entitlement differs from that of its scope by the hash alone. -/
theorem ApprovalContext.Reuses.activeKey (h : c.Reuses s scope e) : e.activeKey =
    some { c.key scope with authorizationContextHash := e.authorizationContextHash } := by
  rw [ScopeEntitlement.activeKey_agent h.ended h.subject, h.resource, h.connection, h.scope]
  rfl

theorem activeKey_entitlement (c : ApprovalContext) (id : Id) (scope : String) :
    (c.entitlement id scope).activeKey = some (c.key scope) := rfl

theorem key_inj {scope' : String} (h : c.key scope = c.key scope') : scope = scope' :=
  congrArg ScopeEntitlement.ActiveKey.scope h

theorem activeKeys_createdFrom {existing : List ScopeEntitlement} {scopes : List String} :
    (c.createdFrom existing n scopes).filterMap (·.activeKey) =
    ((c.createdFrom existing n scopes).map (·.scope)).map c.key := by
  rw [List.map_map, ← List.filterMap_eq_map]
  refine List.filterMap_congr fun e he => ?_
  obtain ⟨scope, -, -, m, -, rfl⟩ := mem_createdFrom he
  rfl

section Landing

variable (audit : AuditEvent)

theorem rows_approvalIn :
    (c.approvalIn s n audit).rows = (c.approvalIn s n audit).entitlements := by
  unfold Approval.rows
  conv_rhs => rw [← List.map_id (c.approvalIn s n audit).entitlements]
  refine List.map_congr_left fun e he => ?_
  obtain ⟨scope, -, -, m, -, rfl⟩ := mem_createdFrom he
  rfl

structure ApprovalContext.Clear (c : ApprovalContext) (s : Store) (n : ℕ) : Prop where
  valid : s.Valid
  fresh : ∀ e ∈ s.entitlements, ∀ m, n ≤ m → e.id ≠ generatedId m
  scopes : c.request.scopes.Nodup
  request : s.findAccessRequest c.request.id = some c.request
  pending : c.request.status = .pending
  resource : (s.directory.activeResource c.request.resourceId).isSome = true
  account : c.connectionId.all s.directory.activeConnection = true
  lifetime : c.lifetime.expiresAt.all (fun t => decide (c.now < t)) = true

theorem keysUnique_approvalIn (hclear : c.Clear s n) (hunblocked : c.Unblocked s) :
    KeysUnique (s.entitlements ++ (c.approvalIn s n audit).entitlements) := by
  constructor
  · rw [List.map_append, List.nodup_append]
    refine ⟨hclear.valid.entitlements.1, nodup_ids_createdFrom, ?_⟩
    intro id hid id' hid' heq
    obtain ⟨e, he, rfl⟩ := List.mem_map.mp hid
    obtain ⟨e', he', rfl⟩ := List.mem_map.mp hid'
    obtain ⟨scope, -, -, m, hm, rfl⟩ := mem_createdFrom he'
    exact hclear.fresh e he m hm heq
  · have hkeys : (c.approvalIn s n audit).entitlements.filterMap (·.activeKey) =
        ((c.approvalIn s n audit).entitlements.map (·.scope)).map c.key := activeKeys_createdFrom
    rw [List.filterMap_append, hkeys, List.nodup_append]
    refine ⟨hclear.valid.entitlements.2, ?_, ?_⟩
    · exact (hclear.scopes.sublist scopes_createdFrom).map fun _ _ => key_inj
    · intro k hk k' hk' heq
      obtain ⟨e, he, hkey⟩ := List.mem_filterMap.mp hk
      obtain ⟨scope, hscope, rfl⟩ := List.mem_map.mp hk'
      obtain ⟨e', he', rfl⟩ := List.mem_map.mp hscope
      obtain ⟨scope, hmem, hnone, m, -, rfl⟩ := mem_createdFrom he'
      have hreused := hunblocked scope hmem e he (hkey.trans (congrArg some heq))
      exact Option.some_ne_none e (hreused.symm.trans hnone)

theorem insertable_approvalIn (hclear : c.Clear s n) :
    ∀ e ∈ (c.approvalIn s n audit).entitlements,
      s.entitlementInsertable e c.request.id = true := by
  intro e he
  obtain ⟨scope, -, -, m, -, rfl⟩ := mem_createdFrom he
  simp [Store.entitlementInsertable, ApprovalContext.entitlement, hclear.resource,
    hclear.request, hclear.pending, hclear.account, ScopeEntitlement.agentIdentityId]

omit [Locale] in
/-- The entitlement that an approval names for a scope, once everything is inserted. -/
theorem approvedEntitlementHolds_of_found {t : Store} {r : AgentAccessRequest}
    {connectionId : Option Id} {approved : ApprovedEntitlement}
    (hfound : t.findEntitlement approved.entitlementId = some e)
    (hsubject : e.subject = .agent r.agentIdentityId)
    (hresource : e.resourceServerId = r.resourceId)
    (hconnection : e.connectionId = connectionId) (hscope : e.scope = approved.scope)
    (hended : e.ended = none) : t.approvedEntitlementHolds r connectionId approved = true := by
  simp [Store.approvedEntitlementHolds, hfound, ScopeEntitlement.agentIdentityId, hsubject,
    hresource, hconnection, hscope, hended, Store.sqlNotEqual]

structure ApprovalContext.Grants (c : ApprovalContext) (scope : String) (e : ScopeEntitlement) :
    Prop where
  subject : e.subject = .agent c.request.agentIdentityId
  ended : e.ended = none
  resource : e.resourceServerId = c.request.resourceId
  connection : e.connectionId = c.connectionId
  details : exactAuthorizationDetails e.authorizationDetails c.authorizationDetails = true
  scope : e.scope = scope

omit [Locale] in
theorem unexpired_of_lifetime {lifetime : Lifetime} {now : ℕ}
    (h : lifetime.expiresAt.all (fun t => decide (now < t)) = true) (he : e.lifetime = lifetime) :
    e.unexpired now = true := by
  unfold ScopeEntitlement.unexpired ScopeEntitlement.expiresAt
  rw [he]
  cases hexpiry : lifetime.expiresAt with
  | none => rfl
  | some t =>
    rw [hexpiry] at h
    exact h

theorem ApprovalContext.Reuses.grants (h : c.Reuses s scope e) : c.Grants scope e :=
  ⟨h.subject, h.ended, h.resource, h.connection, h.details, h.scope⟩

theorem grants_entitlement (c : ApprovalContext) (id : Id) (scope : String) :
    c.Grants scope (c.entitlement id scope) :=
  ⟨rfl, rfl, rfl, rfl, exactAuthorizationDetails_refl c.authorizationDetails, rfl⟩

/-- The approval of a scope names an entitlement that is there once everything is inserted. -/
theorem named_of_mem_zip (hclear : c.Clear s n) {approval : ScopeApproval} (h : (scope, approval) ∈
    c.request.scopes.zip (c.approvalsFrom (c.reusable s) n c.request.scopes)) :
    ∃ e ∈ s.entitlements ++ (c.approvalIn s n audit).entitlements,
      approval.entitlementId = e.id ∧ c.Grants scope e ∧ e.unexpired c.now = true := by
  rcases approves_of_mem_zip h with ⟨current, hcurrent, rfl⟩ | ⟨-, m, -, rfl⟩
  · have hreuses := reuses_of_reused hcurrent
    refine ⟨current, List.mem_append_left _ hreuses.mem, ?_, hreuses.grants, hreuses.unexpired⟩
    unfold ApprovalContext.reuse
    dsimp only
    split <;> rfl
  · refine ⟨c.entitlement (generatedId m) scope, List.mem_append_right _ ?_, rfl,
      grants_entitlement c (generatedId m) scope, unexpired_of_lifetime hclear.lifetime rfl⟩
    exact List.mem_filterMap.mpr ⟨_, (List.of_mem_zip h).2, rfl⟩

theorem lands_approvalIn (hclear : c.Clear s n) (hunblocked : c.Unblocked s) :
    (c.approvalIn s n audit).Lands s := by
  have hkeys := keysUnique_approvalIn audit hclear hunblocked
  refine ⟨insertable_approvalIn audit hclear, ?_, c.request, hclear.request, hclear.pending, ?_⟩
  · rw [rows_approvalIn audit]
    exact hkeys
  · rw [rows_approvalIn audit, Store.decisionHolds, Bool.and_eq_true, Bool.and_eq_true,
      List.all_eq_true]
    refine ⟨⟨hclear.resource, ?_⟩, ?_⟩
    · have hlength : ((c.request.scopes.zip (c.approvalsFrom (c.reusable s) n
          c.request.scopes)).map fun x => (⟨x.1, x.2.entitlementId⟩ : ApprovedEntitlement)).length =
          c.request.scopes.length := by
        rw [List.length_map, List.length_zip, length_approvalsFrom, Nat.min_self]
      exact beq_iff_eq.mpr hlength
    · intro approved happroved
      obtain ⟨⟨scope, approval⟩, hzip, rfl⟩ := List.mem_map.mp happroved
      obtain ⟨e, he, hid, hholds, -⟩ := named_of_mem_zip audit hclear hzip
      have hfound : ({ s with entitlements := s.entitlements ++
          (c.approvalIn s n audit).entitlements } : Store).findEntitlement approval.entitlementId =
          some e := by
        rw [hid]
        exact lookup_of_mem hkeys.1 he
      exact approvedEntitlementHolds_of_found hfound hholds.subject hholds.resource
        hholds.connection hholds.scope hholds.ended

end Landing

section Updates

def EntitlementUpdate.applied (u : EntitlementUpdate) (rows : List ScopeEntitlement) :
    List ScopeEntitlement :=
  updateWhere (fun e => e.id == u.id && e.ended.isNone) (fun e =>
    { e with
      lifetime := u.lifetime
      authorizationContextHash := u.authorizationContextHash }) rows

omit [Locale] in
theorem updateEntitlement_of_unique {u : EntitlementUpdate}
    (h : KeysUnique (u.applied s.entitlements)) : ∃ count, updateEntitlement u s =
      .ok (count, { s with entitlements := u.applied s.entitlements }) := by
  unfold EntitlementUpdate.applied at h ⊢
  refine ⟨s.entitlements.countP fun e => e.id == u.id && e.ended.isNone, ?_⟩
  simp only [updateEntitlement, setEntitlements, Batch.read, bind, pure, if_pos h]

omit [Locale] in
/-- An update leaves the rows of other entitlements as they are. -/
theorem mem_applied_of_ne {u : EntitlementUpdate} {rows : List ScopeEntitlement} (he : e ∈ rows)
    (hid : e.id ≠ u.id) : e ∈ u.applied rows :=
  mem_updateWhere_of_not he (by simp [hid])

omit [Locale] in
/-- A row of an updated table is an old one, or the update of the row with its identifier. -/
theorem mem_applied {u : EntitlementUpdate} {rows : List ScopeEntitlement}
    (he : e ∈ u.applied rows) : (e ∈ rows ∧ ¬(e.id = u.id ∧ e.ended = none)) ∨
      ∃ f ∈ rows, f.id = u.id ∧ f.ended = none ∧ e = { f with
        lifetime := u.lifetime
        authorizationContextHash := u.authorizationContextHash } := by
  obtain ⟨f, hf, rfl⟩ := mem_updateWhere.mp he
  by_cases hp : (f.id == u.id && f.ended.isNone) = true
  · rw [if_pos hp]
    rw [Bool.and_eq_true, beq_iff_eq, Option.isNone_iff_eq_none] at hp
    exact .inr ⟨f, hf, hp.1, hp.2, rfl⟩
  · rw [if_neg hp]
    rw [Bool.and_eq_true, beq_iff_eq, Option.isNone_iff_eq_none] at hp
    exact .inl ⟨hf, hp⟩

variable {rows : List ScopeEntitlement} {u : EntitlementUpdate}

/-- The row of a reused entitlement, updated to the context's hash, has the key of its scope. -/
theorem ApprovalContext.Grants.activeKey_update (h : c.Grants scope e) (lifetime : Lifetime) :
    ({ e with lifetime := lifetime, authorizationContextHash := c.hash } :
      ScopeEntitlement).activeKey = some (c.key scope) := by
  have hkey := ApprovalContext.activeKey_eq (c := c) (e := { e with
    lifetime := lifetime
    authorizationContextHash := c.hash }) h.ended h.subject h.resource h.connection rfl
  rw [hkey]
  exact congrArg (fun scope => some (c.key scope)) h.scope

/-- An update to the context's hash respects the indexes when no other row has the key. -/
theorem keysUnique_applied (hrows : KeysUnique rows) (hmem : e ∈ rows) (hgrants : c.Grants scope e)
    (hid : u.id = e.id) (hhash : u.authorizationContextHash = c.hash)
    (hfree : ∀ f ∈ rows, f.activeKey = some (c.key scope) → f.id = e.id) :
    KeysUnique (u.applied rows) := by
  have hselected {r : ScopeEntitlement} (hr : r ∈ rows)
      (hp : (r.id == u.id && r.ended.isNone) = true) : r = e := by
    rw [Bool.and_eq_true, beq_iff_eq] at hp
    exact eq_of_key_eq hrows.1 hr hmem (hp.1.trans hid)
  constructor
  · exact nodup_map_updateWhere (fun _ _ => rfl) hrows.1
  · refine nodup_filterMap_updateWhere hrows.1 hrows.2 ?_ ?_
    · intro r hr q hq hpr hpq
      rw [hselected hr hpr, hselected hq hpq]
    · intro r hr q hq hpr k hk hqk
      rw [hselected hr hpr] at hk ⊢
      rw [hhash, hgrants.activeKey_update] at hk
      exact hfree q hq (hqk.trans hk.symm)

def ApprovalContext.updatesFrom (c : ApprovalContext) (existing : List ScopeEntitlement) (n : ℕ)
    (scopes : List String) : List EntitlementUpdate :=
  (c.approvalsFrom existing n scopes).filterMap (·.updated)

theorem updated_reuse (c : ApprovalContext) (current : ScopeEntitlement) :
    (c.reuse current).updated = none ∨
      (c.reuse current).updated = some ⟨current.id, max current.lifetime c.lifetime, c.hash⟩ := by
  rw [← Lifetime.approvedAs_getD]
  unfold ApprovalContext.reuse
  dsimp only
  split
  · exact .inr rfl
  · exact .inl rfl

theorem mem_updatesFrom {existing : List ScopeEntitlement} {scopes : List String}
    (h : u ∈ c.updatesFrom existing n scopes) : ∃ current ∈ existing,
      u = ⟨current.id, max current.lifetime c.lifetime, c.hash⟩ := by
  obtain ⟨approval, happroval, hupdated⟩ := List.mem_filterMap.mp h
  obtain ⟨scope, hzip⟩ := exists_zip_of_mem happroval
  rcases approves_of_mem_zip hzip with ⟨current, hcurrent, rfl⟩ | ⟨-, m, -, rfl⟩
  · refine ⟨current, List.mem_of_find?_eq_some hcurrent, ?_⟩
    rcases updated_reuse c current with hnone | hsome
    · exact absurd (hupdated.symm.trans hnone) (Option.some_ne_none u)
    · exact Option.some.inj (hupdated.symm.trans hsome)
  · exact absurd hupdated.symm (Option.some_ne_none u)

/-- A table in which the entitlement reused for a scope is the only one that may hold its key. -/
structure ApprovalContext.Updatable (c : ApprovalContext) (existing : List ScopeEntitlement)
    (scopes : List String) (rows : List ScopeEntitlement) : Prop where
  keys : KeysUnique rows
  reused : ∀ scope ∈ scopes, ∀ current, existing.find? (fun e => e.scope = scope) = some current →
    (∃ e ∈ rows, e.id = current.id ∧ c.Grants scope e) ∧
      ∀ f ∈ rows, f.activeKey = some (c.key scope) → f.id = current.id

/-- The update of one scope leaves the other scopes updatable. -/
theorem ApprovalContext.Updatable.applied {existing : List ScopeEntitlement} {scopes : List String}
    {current : ScopeEntitlement} (h : c.Updatable existing (scope :: scopes) rows)
    (hscope : scope ∉ scopes) (hcurrent : existing.find? (fun e => e.scope = scope) = some current)
    (hid : u.id = current.id) (hhash : u.authorizationContextHash = c.hash) :
    c.Updatable existing scopes (u.applied rows) := by
  obtain ⟨⟨e, he, heid, hgrants⟩, hfree⟩ := h.reused scope List.mem_cons_self current hcurrent
  have huid : u.id = e.id := hid.trans heid.symm
  refine ⟨keysUnique_applied h.keys he hgrants huid hhash fun f hf hkey =>
    (hfree f hf hkey).trans heid.symm, fun scope' hscope' current' hcurrent' => ?_⟩
  obtain ⟨⟨f, hf, hfid, hgrants'⟩, hfree'⟩ :=
    h.reused scope' (List.mem_cons_of_mem _ hscope') current' hcurrent'
  have hne : scope' ≠ scope := fun heq => hscope (heq ▸ hscope')
  constructor
  · refine ⟨f, mem_applied_of_ne hf fun heq => hne ?_, hfid, hgrants'⟩
    -- the updated row is that of the other scope
    have hsame : f = e := eq_of_key_eq h.keys.1 hf he (heq.trans huid)
    rw [← hgrants'.scope, hsame, hgrants.scope]
  · intro g hg hkey
    rcases mem_applied hg with ⟨hold, -⟩ | ⟨f', hf', hf'id, -, rfl⟩
    · exact hfree' g hold hkey
    · have hsame : f' = e := eq_of_key_eq h.keys.1 hf' he (hf'id.trans huid)
      rw [hsame, hhash, hgrants.activeKey_update] at hkey
      exact absurd (key_inj (Option.some.inj hkey)).symm hne

/-- The updates of an updatable table succeed. -/
theorem updateAll_of_updatable {existing : List ScopeEntitlement} {scopes : List String}
    (hnodup : scopes.Nodup) (h : c.Updatable existing scopes s.entitlements) :
    ∃ counts t, Batch.all ((c.updatesFrom existing n scopes).map updateEntitlement) s =
      .ok (counts, t) := by
  induction scopes generalizing n s with
  | nil => exact ⟨[], s, rfl⟩
  | cons scope scopes ih =>
    obtain ⟨hscope, hnodup'⟩ := List.nodup_cons.mp hnodup
    have hrest : c.Updatable existing scopes s.entitlements :=
      ⟨h.keys, fun scope' hscope' => h.reused scope' (List.mem_cons_of_mem _ hscope')⟩
    rw [ApprovalContext.updatesFrom, ApprovalContext.approvalsFrom]
    cases hcurrent : existing.find? fun e => e.scope = scope with
    | none => exact ih hnodup' hrest
    | some current =>
      dsimp only
      rcases updated_reuse c current with hnone | hsome
      · rw [List.filterMap_cons_none hnone]
        exact ih hnodup' hrest
      · rw [List.filterMap_cons_some hsome, List.map_cons, Batch.all]
        have happlied := h.applied (u := ⟨current.id, max current.lifetime c.lifetime, c.hash⟩)
          hscope hcurrent rfl rfl
        obtain ⟨count, hcount⟩ := updateEntitlement_of_unique happlied.keys
        obtain ⟨counts, t, hall⟩ := ih (n := n) (s := { s with entitlements := _ }) hnodup' happlied
        rw [Batch.bind_of_ok hcount]
        exact ⟨_, t, Batch.bind_of_ok hall⟩

end Updates

section Outcomes

variable {audit : AuditEvent}

/-- What an approval is for: its request is approved, and each scope has a grant in force. -/
structure ApprovalContext.Decided (c : ApprovalContext) (t : Store) : Prop where
  request : ∃ q, t.findAccessRequest c.request.id = some q ∧ q.status = .approved
  grants : ∀ scope ∈ c.request.scopes, ∃ e ∈ t.entitlements,
    c.Grants scope e ∧ e.active c.now = true

omit [Locale] in
theorem unexpired_max {lifetime : Lifetime} {now : ℕ} {hash : Digest String} {f : ScopeEntitlement}
    (he : e.unexpired now = true)
    (hlifetime : lifetime.expiresAt.all (fun t => decide (now < t)) = true) :
    ({ f with lifetime := max e.lifetime lifetime, authorizationContextHash := hash } :
      ScopeEntitlement).unexpired now = true := by
  rcases le_total e.lifetime lifetime with hle | hle
  · rw [max_eq_right hle]
    exact unexpired_of_lifetime hlifetime rfl
  · rw [max_eq_left hle]
    exact he

theorem updatable_approvalIn (audit : AuditEvent) (hclear : c.Clear s n)
    (hunblocked : c.Unblocked s) :
    c.Updatable (c.reusable s) c.request.scopes
      (s.entitlements ++ (c.approvalIn s n audit).entitlements) := by
  refine ⟨keysUnique_approvalIn audit hclear hunblocked, fun scope hscope current hcurrent => ?_⟩
  have hreuses := reuses_of_reused hcurrent
  refine ⟨⟨current, List.mem_append_left _ hreuses.mem, rfl, hreuses.grants⟩, fun f hf hkey => ?_⟩
  rcases List.mem_append.mp hf with hf | hf
  · have hreused := hunblocked scope hscope f hf hkey
    rw [Option.some.inj (hreused.symm.trans hcurrent)]
  · obtain ⟨scope', -, hnone, m, -, rfl⟩ := mem_createdFrom hf
    have hsame : scope' = scope := key_inj (Option.some.inj hkey)
    rw [hsame] at hnone
    exact absurd (hcurrent.symm.trans hnone) (Option.some_ne_none current)

/-- A row of a scope, in force before the updates, is so after them. -/
theorem grants_rewriteAll
    (hlifetime : c.lifetime.expiresAt.all (fun t => decide (c.now < t)) = true)
    (hgrants : c.Grants scope e) (he : e.unexpired c.now = true) :
    c.Grants scope (rewriteAll (c.approvalIn s n audit).updates e) ∧
      (rewriteAll (c.approvalIn s n audit).updates e).active c.now = true := by
  have hactive {f : ScopeEntitlement} (hf : f.ended = none)
    (hunexpired : f.unexpired c.now = true) :
      f.active c.now = true := by
    rw [ScopeEntitlement.active, hf, hunexpired]
    rfl
  rcases rewriteAll_cases (c.approvalIn s n audit).updates e with
    ⟨hsame, -⟩ | ⟨u, hu, -, -, hwritten⟩
  · rw [hsame]
    exact ⟨hgrants, hactive hgrants.ended he⟩
  · obtain ⟨current, hcurrent, rfl⟩ := mem_updatesFrom hu
    have hlisted := mem_listActiveEntitlementsByAgent.mp (List.mem_of_mem_filter hcurrent)
    have hcurrent' : current.unexpired c.now = true := (Bool.and_eq_true_iff.mp hlisted.2.2).2
    rw [hwritten]
    refine ⟨⟨hgrants.subject, hgrants.ended, hgrants.resource, hgrants.connection, hgrants.details,
      hgrants.scope⟩, hactive hgrants.ended (unexpired_max hcurrent' hlifetime)⟩

/-- An approval that nothing blocks decides its request. -/
theorem approve_of_unblocked (audit : AuditEvent) (hclear : c.Clear s n)
    (hunblocked : c.Unblocked s) :
    ∃ result t, approveAccessRequestWithEntitlements (c.approvalIn s n audit) s =
      .ok (result, t) ∧ result ≠ .entitlementsChanged ∧ c.Decided t := by
  have hlands := lands_approvalIn audit hclear hunblocked
  have hupdatable := updatable_approvalIn audit hclear hunblocked
  obtain ⟨counts, t, hcounts⟩ := updateAll_of_updatable (n := n)
    (s := { s with entitlements := s.entitlements ++ (c.approvalIn s n audit).rows })
    hclear.scopes (rows_approvalIn audit ▸ hupdatable)
  obtain ⟨result, u, hok, hresult, hrows, happroved⟩ := approve_of_lands hlands hcounts
  refine ⟨result, u, hok, hresult, happroved, fun scope hscope => ?_⟩
  obtain ⟨approval, hzip⟩ := exists_zip_of_scope c (c.reusable s) n hscope
  obtain ⟨e, he, -, hgrants, hunexpired⟩ := named_of_mem_zip audit hclear hzip
  refine ⟨rewriteAll (c.approvalIn s n audit).updates e, ?_,
    grants_rewriteAll hclear.lifetime hgrants hunexpired⟩
  rw [hrows, updateAll_ok hcounts, rows_approvalIn]
  exact List.mem_map_of_mem he

omit [Locale] in
theorem of_activeKey {k : ScopeEntitlement.ActiveKey} (h : e.activeKey = some k) :
    e.ended = none ∧ k.authorizationContextHash = e.authorizationContextHash ∧
      k.scope = e.scope := by
  have hended := ScopeEntitlement.ended_of_activeKey h
  unfold ScopeEntitlement.activeKey at h
  rw [hended] at h
  cases hsubject : e.subject <;> rw [hsubject] at h <;> cases h <;> exact ⟨hended, rfl, rfl⟩

omit [Locale] in
/-- The parts of an approval's batch that went through. -/
theorem approve_parts {a : Approval} {result : ApprovalResult} {t : Store} (hvalid : s.Valid)
    (h : approveAccessRequestWithEntitlements a s = .ok (result, t)) :
    ∃ kept audits, kept.Sublist a.rows ∧ KeysUnique (s.entitlements ++ kept) ∧
      KeysUnique ((s.entitlements ++ kept).map (rewriteAll a.updates)) ∧ t = { s with
        entitlements := (s.entitlements ++ kept).map (rewriteAll a.updates)
        requests := updateWhere (fun q => q.id == a.requestId && q.status == .pending &&
          ({ s with entitlements := (s.entitlements ++ kept).map (rewriteAll a.updates) } :
            Store).decisionHolds q (.approved a.decision)) (·.decide (.approved a.decision))
          s.requests
        audits := audits } := by
  rw [approve_eq] at h
  obtain ⟨inserted, s₁, hinserts, h⟩ := Batch.bind_eq_ok.mp h
  obtain ⟨updated, s₂, hupdates, h⟩ := Batch.bind_eq_ok.mp h
  obtain ⟨_, audits, hdecided⟩ := decideApproved_ok a inserted updated s₂
  rw [hdecided] at h
  cases h
  have hvalid₁ : s₁.Valid := by
    refine (precedes_all (fun b hb => ?_) s _ s₁ hinserts).valid hvalid
    obtain ⟨input, -, rfl⟩ := List.mem_map.mp hb
    exact precedes_insertEntitlement a.requestId input
  have hvalid₂ : s₂.Valid := by
    refine (precedes_all (fun b hb => ?_) s₁ _ s₂ hupdates).valid hvalid₁
    obtain ⟨update, -, rfl⟩ := List.mem_map.mp hb
    exact precedes_updateEntitlement update
  obtain ⟨rfl, hsub⟩ := insertAll_ok hinserts
  obtain rfl := updateAll_ok hupdates
  exact ⟨inserted.reduceOption, audits, hsub, hvalid₁.entitlements, hvalid₂.entitlements, rfl⟩

section Blocked

variable {kept : List ScopeEntitlement} {f : ScopeEntitlement}

/-- A row that holds the key of a scope holds it after the updates. -/
theorem activeKey_rewriteAll (hkey : e.activeKey = some (c.key scope)) :
    (rewriteAll (c.approvalIn s n audit).updates e).activeKey = some (c.key scope) := by
  rcases rewriteAll_cases (c.approvalIn s n audit).updates e with
    ⟨hsame, -⟩ | ⟨v, hv, -, -, hwritten⟩
  · rw [hsame]
    exact hkey
  · obtain ⟨current, -, rfl⟩ := mem_updatesFrom hv
    rw [hwritten, ← hkey]
    exact ScopeEntitlement.activeKey_congr rfl rfl rfl rfl (of_activeKey hkey).2.1 rfl

/-- An entitlement that is reused under another hash is updated to the key of its scope. -/
theorem activeKey_of_reused (hscope : scope ∈ c.request.scopes)
    (hreused : c.reused s scope = some f) (hhash : f.authorizationContextHash ≠ c.hash) :
    (rewriteAll (c.approvalIn s n audit).updates f).activeKey = some (c.key scope) := by
  have hreuses := reuses_of_reused hreused
  obtain ⟨approval, hzip⟩ := exists_zip_of_scope c (c.reusable s) n hscope
  have happroval : approval = c.reuse f := by
    rcases approves_of_mem_zip hzip with ⟨current, hcurrent, rfl⟩ | ⟨hnone, -⟩
    · rw [Option.some.inj (hcurrent.symm.trans hreused)]
    · exact absurd (hreused.symm.trans hnone) (Option.some_ne_none f)
  have hupdated : (c.reuse f).updated =
      some ⟨f.id, (f.lifetime.approvedAs c.lifetime).getD f.lifetime, c.hash⟩ := by
    unfold ApprovalContext.reuse
    dsimp only
    rw [if_pos (.inr hhash)]
    rfl
  rw [happroval] at hzip
  have hupdate : ⟨f.id, (f.lifetime.approvedAs c.lifetime).getD f.lifetime, c.hash⟩ ∈
      (c.approvalIn s n audit).updates :=
    List.mem_filterMap.mpr ⟨_, (List.of_mem_zip hzip).2, hupdated⟩
  rcases rewriteAll_cases (c.approvalIn s n audit).updates f with
    ⟨-, hnone⟩ | ⟨v, hv, -, -, hwritten⟩
  · exact absurd hreuses.ended (hnone _ hupdate rfl)
  · obtain ⟨current, -, rfl⟩ := mem_updatesFrom hv
    rw [hwritten]
    exact hreuses.grants.activeKey_update _

/-- An entitlement that is reused although another one holds the key of its scope clashes with it
once it is updated. -/
theorem not_keysUnique_of_reused (hvalid : s.Valid) (hscope : scope ∈ c.request.scopes)
    (he : e ∈ s.entitlements) (hkey : e.activeKey = some (c.key scope))
    (hreused : c.reused s scope = some f) (hne : f ≠ e) :
    ¬KeysUnique ((s.entitlements ++ kept).map (rewriteAll (c.approvalIn s n audit).updates)) := by
  intro hkeys
  have hreuses := reuses_of_reused hreused
  have hhash : f.authorizationContextHash ≠ c.hash := by
    intro hhash
    have hkey' := hreuses.activeKey
    rw [hhash] at hkey'
    exact hne (eq_of_some_key_eq hvalid.entitlements.2 hreuses.mem he hkey' hkey)
  have hmem {r : ScopeEntitlement} (hr : r ∈ s.entitlements) :
      rewriteAll (c.approvalIn s n audit).updates r ∈
        (s.entitlements ++ kept).map (rewriteAll (c.approvalIn s n audit).updates) :=
    List.mem_map_of_mem (List.mem_append_left _ hr)
  have hsame := eq_of_some_key_eq hkeys.2 (hmem hreuses.mem) (hmem he)
    (activeKey_of_reused hscope hreused hhash) (activeKey_rewriteAll hkey)
  have hid : f.id = e.id := by
    rw [← rewriteAll_id (c.approvalIn s n audit).updates f, hsame, rewriteAll_id]
  exact hne (eq_of_key_eq hvalid.entitlements.1 hreuses.mem he hid)

/-- The entitlement for a scope whose key is taken is not inserted. -/
theorem not_named_of_taken (hclear : c.Clear s n) (he : e ∈ s.entitlements)
    (hkey : e.activeKey = some (c.key scope)) (hkept : kept.Sublist (c.approvalIn s n audit).rows)
    (hkeys : KeysUnique (s.entitlements ++ kept)) {m : ℕ} (hm : n ≤ m)
    (hcreated : c.entitlement (generatedId m) scope ∈ (c.approvalIn s n audit).entitlements) :
    ∀ r ∈ s.entitlements ++ kept, r.id ≠ generatedId m := by
  intro r hr hid
  rcases List.mem_append.mp hr with hold | hnew
  · exact hclear.fresh r hold m hm hid
  · have hrow := hkept.subset hnew
    rw [rows_approvalIn] at hrow
    obtain rfl : r = c.entitlement (generatedId m) scope :=
      eq_of_key_eq nodup_ids_createdFrom hrow hcreated hid
    have hsame := eq_of_some_key_eq hkeys.2 hr (List.mem_append_left _ he)
      (activeKey_entitlement c (generatedId m) scope) hkey
    exact hclear.fresh e he m hm (hsame ▸ hid)

/-- A decision does not hold without the entitlement that it names for a scope. -/
theorem not_decisionHolds (hclear : c.Clear s n) (hscope : scope ∈ c.request.scopes)
    (hnone : c.reused s scope = none) (he : e ∈ s.entitlements)
    (hkey : e.activeKey = some (c.key scope)) (hkept : kept.Sublist (c.approvalIn s n audit).rows)
    (hkeys : KeysUnique (s.entitlements ++ kept)) (q : AgentAccessRequest) :
    ¬({ s with
      entitlements := (s.entitlements ++ kept).map (rewriteAll (c.approvalIn s n audit).updates) } :
      Store).decisionHolds q (.approved (c.approvalIn s n audit).decision) = true := by
  intro hholds
  rw [Store.decisionHolds, Bool.and_eq_true, List.all_eq_true] at hholds
  obtain ⟨approval, hzip⟩ := exists_zip_of_scope c (c.reusable s) n hscope
  obtain ⟨f, hf, hid, -⟩ := exists_of_approvedEntitlementHolds
    (hholds.2 ⟨scope, approval.entitlementId⟩ (List.mem_map.mpr ⟨(scope, approval), hzip, rfl⟩))
  obtain ⟨r, hr, rfl⟩ := List.mem_map.mp hf
  rw [rewriteAll_id] at hid
  rcases approves_of_mem_zip hzip with ⟨current, hcurrent, -⟩ | ⟨-, m, hm, rfl⟩
  · exact Option.some_ne_none current (hcurrent.symm.trans hnone)
  · have hcreated : c.entitlement (generatedId m) scope ∈ (c.approvalIn s n audit).entitlements :=
      List.mem_filterMap.mpr ⟨_, (List.of_mem_zip hzip).2, rfl⟩
    exact not_named_of_taken hclear he hkey hkept hkeys hm hcreated r hr hid

structure ApprovalContext.Blocks (c : ApprovalContext) (s t : Store) : Prop where
  requests : t.requests = s.requests
  directory : t.directory = s.directory
  now : t.now = s.now
  valid : t.Valid
  blocked : ¬c.Unblocked t

/-- A blocked approval decides nothing, and stays blocked. -/
theorem approve_of_blocked (hclear : c.Clear s n) (hblocked : ¬c.Unblocked s)
    {result : ApprovalResult} {t : Store}
    (h : approveAccessRequestWithEntitlements (c.approvalIn s n audit) s = .ok (result, t)) :
    c.Blocks s t ∧ ∀ e ∈ t.entitlements, (∃ r ∈ s.entitlements, e.id = r.id) ∨
      ∃ r ∈ (c.approvalIn s n audit).entitlements, e.id = r.id := by
  unfold ApprovalContext.Unblocked at hblocked
  push Not at hblocked
  obtain ⟨scope, hscope, e, he, hkey, hne⟩ := hblocked
  have hvalid := (precedes_approveAccessRequestWithEntitlements _ s _ t h).valid hclear.valid
  obtain ⟨kept, audits, hkept, hkeys, hkeys', rfl⟩ := approve_parts hclear.valid h
  have hnone : c.reused s scope = none := by
    rw [Option.eq_none_iff_forall_not_mem]
    intro f hf
    refine not_keysUnique_of_reused hclear.valid hscope he hkey hf (fun heq => hne ?_) hkeys'
    rw [hf, heq]
  have hunlisted : e ∉ c.reusable s := by
    intro hlisted
    have hscope' := List.find?_eq_none.mp hnone e hlisted
    exact hscope' (decide_eq_true (of_activeKey hkey).2.2.symm)
  have hkept' : rewriteAll (c.approvalIn s n audit).updates e = e := by
    rcases rewriteAll_cases (c.approvalIn s n audit).updates e with
      ⟨hsame, -⟩ | ⟨u, hu, hid, -, -⟩
    · exact hsame
    · obtain ⟨current, hcurrent, rfl⟩ := mem_updatesFrom hu
      have hrow := (mem_listActiveEntitlementsByAgent.mp (List.mem_of_mem_filter hcurrent)).1
      have hsame : current = e := eq_of_key_eq hclear.valid.entitlements.1 hrow he hid
      exact absurd (hsame ▸ hcurrent) hunlisted
  refine ⟨⟨?_, rfl, rfl, hvalid, ?_⟩, ?_⟩
  · refine updateWhere_eq_self fun q hq hselected => ?_
    rw [Bool.and_eq_true] at hselected
    exact absurd hselected.2 (not_decisionHolds hclear hscope hnone he hkey hkept hkeys q)
  · intro hunblocked
    have hmem : e ∈ (s.entitlements ++ kept).map (rewriteAll (c.approvalIn s n audit).updates) :=
      List.mem_map.mpr ⟨e, List.mem_append_left _ he, hkept'⟩
    have hreused := List.mem_of_find?_eq_some (hunblocked scope hscope e hmem hkey)
    obtain ⟨hlisted, hequivalent⟩ := List.mem_filter.mp hreused
    have hactive := (mem_listActiveEntitlementsByAgent.mp hlisted).2
    exact hunlisted (List.mem_filter.mpr
      ⟨mem_listActiveEntitlementsByAgent.mpr ⟨he, hactive⟩, hequivalent⟩)
  · intro r hr
    obtain ⟨r', hr', rfl⟩ := List.mem_map.mp hr
    rw [rewriteAll_id]
    rcases List.mem_append.mp hr' with hold | hnew
    · exact .inl ⟨r', hold, rfl⟩
    · have hrow := hkept.subset hnew
      rw [rows_approvalIn] at hrow
      exact .inr ⟨r', hrow, rfl⟩

end Blocked

end Outcomes

end Contexts

end FlareAuth
