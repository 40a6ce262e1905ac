import FlareAuth.Approvals
import FlareAuth.ExchangeStore

/-!
# Rows on Resource Servers that are not deleted

Where a row that an operation leaves behind comes from: it was there before, or
a guard found its resource, or a direct grant wrote it. Only a deletion deletes
a Resource Server.
-/

namespace FlareAuth

open Concurrent Relational Statement

variable {α β : Type}

/-- A Resource Server with this identifier is not deleted. -/
def Directory.Live (d : Directory) (id : Id) : Prop :=
  ∃ r ∈ d.resources, r.id = id ∧ r.deletedAt = none

theorem Directory.live_of_activeResource {d : Directory} {id : Id}
    (h : (d.activeResource id).isSome) : d.Live id := by
  obtain ⟨r, hr⟩ := Option.isSome_iff_exists.mp h
  have hrow := List.find?_some hr
  simp only [decide_eq_true_eq] at hrow
  exact ⟨r, List.mem_of_find?_eq_some hr, hrow.1, hrow.2.2⟩

namespace Store

def SameRequests (s t : Store) : Prop := t.requests.length = s.requests.length

def SameResources (s t : Store) : Prop := t.directory.resources = s.directory.resources

def SameAgents (s t : Store) : Prop :=
  t.directory.identities = s.directory.identities ∧ t.directory.bindings = s.directory.bindings

structure SameTargets (s t : Store) : Prop where
  requests : s.SameRequests t
  resources : s.SameResources t
  agents : s.SameAgents t

theorem SameRequests.refl (s : Store) : s.SameRequests s := rfl

theorem SameRequests.trans {s t u : Store} (h : s.SameRequests t) (h' : t.SameRequests u) :
    s.SameRequests u := Eq.trans h' h

theorem SameResources.refl (s : Store) : s.SameResources s := rfl

theorem SameResources.trans {s t u : Store} (h : s.SameResources t) (h' : t.SameResources u) :
    s.SameResources u := Eq.trans h' h

theorem SameAgents.refl (s : Store) : s.SameAgents s := ⟨rfl, rfl⟩

theorem SameAgents.trans {s t u : Store} (h : s.SameAgents t) (h' : t.SameAgents u) :
    s.SameAgents u := ⟨h'.1.trans h.1, h'.2.trans h.2⟩

theorem SameTargets.refl (s : Store) : s.SameTargets s := ⟨rfl, rfl, rfl, rfl⟩

theorem SameTargets.trans {s t u : Store} (h : s.SameTargets t) (h' : t.SameTargets u) :
    s.SameTargets u := ⟨h.1.trans h'.1, h.2.trans h'.2, h.agents.trans h'.agents⟩

end Store

namespace Statement

theorem sameTargets_bind {b : StoreBatch α} {f : α → StoreBatch β}
    (hb : Batch.Within Store.SameTargets b) (hf : ∀ x, Batch.Within Store.SameTargets (f x)) :
    Batch.Within Store.SameTargets (b >>= f) := hb.bind (fun _ _ _ => .trans) hf

theorem sameTargets_pure (x : α) : Batch.Within Store.SameTargets (pure x : StoreBatch α) :=
  .pure .refl x

theorem sameTargets_read (f : Store → α) :
    Batch.Within Store.SameTargets (Batch.read f : StoreBatch α) := .read .refl f

theorem sameTargets_insertAudit (audit : AuditEvent) (selected : Store → Bool) :
    Batch.Within Store.SameTargets (insertAudit audit selected) := by
  refine .modify fun s => ?_
  split <;> exact ⟨rfl, rfl, rfl, rfl⟩

theorem sameTargets_setEntitlements (f : List ScopeEntitlement → List ScopeEntitlement) :
    Batch.Within Store.SameTargets (setEntitlements f) := by
  intro s x t hs
  unfold setEntitlements at hs
  split at hs <;> cases hs
  exact ⟨rfl, rfl, rfl, rfl⟩

theorem sameTargets_updateAccessRequestDecision (id : Id) (decision : AccessDecision) :
    Batch.Within Store.SameTargets (updateAccessRequestDecision id decision) := by
  intro s x t hs
  cases hs
  exact ⟨length_updateWhere _ _ _, rfl, rfl, rfl⟩

theorem sameTargets_insertEntitlement (requestId : Id) (input : ScopeEntitlement) :
    Batch.Within Store.SameTargets (insertEntitlement requestId input) := by
  intro s x t hs
  unfold insertEntitlement at hs
  split at hs <;> cases hs <;> exact ⟨rfl, rfl, rfl, rfl⟩

theorem sameTargets_updateEntitlement (update : EntitlementUpdate) :
    Batch.Within Store.SameTargets (updateEntitlement update) :=
  sameTargets_bind (sameTargets_read _) fun _ =>
    sameTargets_bind (sameTargets_setEntitlements _) fun _ => sameTargets_pure _

theorem sameTargets_endEntitlements (selected : ScopeEntitlement → Bool) (reason : EndReason)
    (now : ℕ) : Batch.Within Store.SameTargets (endEntitlements selected reason now) :=
  .modify fun _ => ⟨rfl, rfl, rfl, rfl⟩

theorem sameTargets_revokeTokenLeases (selected : TokenLease → Bool) (now : ℕ) :
    Batch.Within Store.SameTargets (revokeTokenLeases selected now) :=
  .modify fun _ => ⟨rfl, rfl, rfl, rfl⟩

theorem sameTargets_insertTokenLease (input : TokenLease) (boundary : TokenLeaseBoundary) :
    Batch.Within Store.SameTargets (insertTokenLease input boundary) := by
  intro s x t hs
  unfold insertTokenLease at hs
  split at hs
  · split at hs <;> cases hs
    exact ⟨rfl, rfl, rfl, rfl⟩
  · cases hs
    exact ⟨rfl, rfl, rfl, rfl⟩

theorem sameTargets_consumeAccessRequest (requestId leaseId : Id) :
    Batch.Within Store.SameTargets (consumeAccessRequest requestId leaseId) := by
  refine .modify fun s => ?_
  split
  · exact ⟨length_updateWhere _ _ _, rfl, rfl, rfl⟩
  · exact ⟨rfl, rfl, rfl, rfl⟩

theorem sameTargets_consumeEntitlements (ids : List Id) (leaseId : Id) (now : ℕ) :
    Batch.Within Store.SameTargets (consumeEntitlements ids leaseId now) := by
  refine .modify fun s => ?_
  split <;> exact ⟨rfl, rfl, rfl, rfl⟩

end Statement

namespace Repository

theorem sameTargets_approveAccessRequestWithEntitlements (a : Approval) :
    Batch.Within Store.SameTargets (approveAccessRequestWithEntitlements a) := by
  refine sameTargets_bind (.all .refl (fun _ _ _ => .trans) fun b hb => ?_) fun inserted => ?_
  · obtain ⟨input, _, rfl⟩ := List.mem_map.mp hb
    exact sameTargets_insertEntitlement a.requestId input
  refine sameTargets_bind (.all .refl (fun _ _ _ => .trans) fun b hb => ?_) fun updated => ?_
  · obtain ⟨update, _, rfl⟩ := List.mem_map.mp hb
    exact sameTargets_updateEntitlement update
  refine sameTargets_bind (sameTargets_updateAccessRequestDecision _ _) fun request => ?_
  refine sameTargets_bind (sameTargets_insertAudit _ _) fun _ => ?_
  split
  · exact sameTargets_pure _
  · split
    · exact sameTargets_pure _
    · cases request <;> exact sameTargets_pure _

theorem sameTargets_issueTokenLeaseWithAudit (i : Issuance) :
    Batch.Within Store.SameTargets (issueTokenLeaseWithAudit i) := by
  refine sameTargets_bind (sameTargets_insertTokenLease _ _) fun lease => ?_
  refine sameTargets_bind (sameTargets_consumeAccessRequest _ _) fun _ => ?_
  refine sameTargets_bind (sameTargets_consumeEntitlements _ _ _) fun _ => ?_
  exact sameTargets_bind (sameTargets_insertAudit _ _) fun _ => sameTargets_pure _

theorem sameTargets_decideAccessRequestWithAudit (id : Id) (decision : AccessDecision)
    (audit : AuditEvent) :
    Batch.Within Store.SameTargets (decideAccessRequestWithAudit id decision audit) :=
  sameTargets_bind (sameTargets_insertAudit _ _) fun _ =>
    sameTargets_updateAccessRequestDecision id decision

theorem sameTargets_endEntitlement (id : Id) (reason : EndReason) (now : ℕ) :
    Batch.Within Store.SameTargets (endEntitlement id reason now) :=
  sameTargets_bind (sameTargets_read _) fun _ =>
    sameTargets_bind (sameTargets_endEntitlements _ _ _) fun _ => sameTargets_pure _

theorem sameTargets_endEntitlementWithAudit (id : Id) (reason : EndReason)
    (tokenLeaseIds : List Id) (now : ℕ) (audit : AuditEvent) :
    Batch.Within Store.SameTargets (endEntitlementWithAudit id reason tokenLeaseIds now audit) :=
  sameTargets_bind (sameTargets_insertAudit _ _) fun _ =>
    sameTargets_bind (sameTargets_endEntitlement id reason now) fun _ =>
      sameTargets_bind (sameTargets_revokeTokenLeases _ _) fun _ => sameTargets_pure _

theorem sameRequests_deleteResource (id : Id) (now : ℕ) (audit : AuditEvent) :
    Batch.Within Store.SameRequests (deleteResource id now audit) := by
  have htrans : ∀ s t u : Store, s.SameRequests t → t.SameRequests u → s.SameRequests u :=
    fun _ _ _ => .trans
  have hrequests : ∀ {γ : Type} {b : StoreBatch γ}, Batch.Within Store.SameTargets b →
      Batch.Within Store.SameRequests b := fun h => h.mono fun _ _ => Store.SameTargets.requests
  refine .bind htrans (hrequests (sameTargets_insertAudit _ _)) fun _ => ?_
  refine .bind htrans (.modify fun _ => rfl) fun _ => ?_
  refine .bind htrans (.modify fun _ => length_updateWhere _ _ _) fun _ => ?_
  refine .bind htrans (hrequests (sameTargets_endEntitlements _ _ _)) fun _ => ?_
  exact .bind htrans (.read .refl _) fun _ => hrequests (sameTargets_revokeTokenLeases _ _)

theorem sameAgents_deleteResource (id : Id) (now : ℕ) (audit : AuditEvent) :
    Batch.Within Store.SameAgents (deleteResource id now audit) := by
  have htrans : ∀ s t u : Store, s.SameAgents t → t.SameAgents u → s.SameAgents u :=
    fun _ _ _ => .trans
  have hagents : ∀ {γ : Type} {b : StoreBatch γ}, Batch.Within Store.SameTargets b →
      Batch.Within Store.SameAgents b := fun h => h.mono fun _ _ => Store.SameTargets.agents
  refine .bind htrans (hagents (sameTargets_insertAudit _ _)) fun _ => ?_
  refine .bind htrans (.modify fun _ => ⟨rfl, rfl⟩) fun _ => ?_
  refine .bind htrans (.modify fun _ => ⟨rfl, rfl⟩) fun _ => ?_
  refine .bind htrans (hagents (sameTargets_endEntitlements _ _ _)) fun _ => ?_
  exact .bind htrans (.read .refl _) fun _ => hagents (sameTargets_revokeTokenLeases _ _)

end Repository

def Operation.Targets : Operation → Prop
  | .createAccessRequest .. => True
  | .deleteResource .. => True
  | .administer _ => True
  | _ => False

open Repository in
theorem sameTargets_perform {op : Operation} (h : ¬op.Targets) (s : Store) :
    s.SameTargets (op.perform s) := by
  have hsettle : ∀ {γ : Type} {b : StoreBatch γ}, Batch.Within Store.SameTargets b →
      s.SameTargets (b.settle s) := fun h => h.settle .refl s
  cases op with
  | createAccessRequest input audit => exact absurd trivial h
  | deleteResource id now audit => exact absurd trivial h
  | administer change => exact absurd trivial h
  | read q => exact .refl s
  | generateId => exact ⟨rfl, rfl, rfl, rfl⟩
  | elapse milliseconds => exact ⟨rfl, rfl, rfl, rfl⟩
  | outside world => exact ⟨rfl, rfl, rfl, rfl⟩
  | decideAccessRequest id decision audit =>
    exact hsettle (sameTargets_decideAccessRequestWithAudit id decision audit)
  | approve a => exact hsettle (sameTargets_approveAccessRequestWithEntitlements a)
  | endEntitlement id reason now => exact hsettle (sameTargets_endEntitlement id reason now)
  | endEntitlementWithAudit id reason ids now audit =>
    exact hsettle (sameTargets_endEntitlementWithAudit id reason ids now audit)
  | endEntitlementsById ids now => exact hsettle (sameTargets_endEntitlements _ _ _)
  | issueTokenLease i => exact hsettle (sameTargets_issueTokenLeaseWithAudit i)
  | revokeTokenLease id now => exact hsettle (sameTargets_revokeTokenLeases _ _)
  | insertScopeEntitlement input =>
    have hinsert : Batch.Within Store.SameTargets (insertScopeEntitlement input) := by
      intro s x t hs
      unfold insertScopeEntitlement at hs
      split at hs <;> cases hs <;> exact ⟨rfl, rfl, rfl, rfl⟩
    exact hsettle hinsert
  | replaceExpiredEntitlement id input now =>
    exact hsettle (sameTargets_bind (sameTargets_endEntitlements _ _ _) fun _ =>
      sameTargets_setEntitlements _)
  | strengthenEntitlement id lifetime hash =>
    exact hsettle (sameTargets_bind (sameTargets_setEntitlements _) fun _ => sameTargets_read _)
  | revokeConnection id now => exact ⟨rfl, rfl, rfl, rfl⟩
  | revokeProviderConnection id owner account => exact ⟨rfl, rfl, rfl, rfl⟩
  | revokeResourceAuthorizations ids now =>
    refine hsettle (sameTargets_bind (.modify fun _ => ?_) fun _ => ?_)
    · exact ⟨length_updateWhere _ _ _, rfl, rfl, rfl⟩
    · exact sameTargets_bind (sameTargets_setEntitlements _)
        fun _ => .modify fun _ => ⟨rfl, rfl, rfl, rfl⟩

theorem Store.SameResources.live {s t : Store} (h : s.SameResources t) {id : Id} :
    t.directory.Live id ↔ s.directory.Live id := by
  unfold Directory.Live
  rw [h]

section Origins

namespace Store

/-- What a batch adds to the requests belongs to live Resource Servers. -/
structure RequestsFrom (s t : Store) : Prop where
  resources : s.SameResources t
  rows : ∀ r ∈ t.requests, r ∈ s.requests ∨ s.directory.Live r.resourceId

/-- What a batch adds to the entitlements belongs to live Resource Servers. -/
structure EntitlementsFrom (s t : Store) : Prop where
  resources : s.SameResources t
  rows : ∀ e ∈ t.entitlements,
    (∃ e₀ ∈ s.entitlements, e₀.Persists e) ∨ s.directory.Live e.resourceServerId

theorem RequestsFrom.trans {s t u : Store} (h : s.RequestsFrom t) (h' : t.RequestsFrom u) :
    s.RequestsFrom u := by
  refine ⟨h.resources.trans h'.resources, fun r hr => ?_⟩
  rcases h'.rows r hr with hr | hlive
  · exact h.rows r hr
  · exact .inr (h.resources.live.mp hlive)

theorem EntitlementsFrom.refl (s : Store) : s.EntitlementsFrom s :=
  ⟨rfl, fun e he => .inl ⟨e, he, .refl e⟩⟩

theorem EntitlementsFrom.trans {s t u : Store} (h : s.EntitlementsFrom t)
    (h' : t.EntitlementsFrom u) : s.EntitlementsFrom u := by
  refine ⟨h.resources.trans h'.resources, fun e he => ?_⟩
  rcases h'.rows e he with ⟨e₁, he₁, hpersists⟩ | hlive
  · rcases h.rows e₁ he₁ with ⟨e₀, he₀, hpersists₀⟩ | hlive
    · exact .inl ⟨e₀, he₀, hpersists₀.trans hpersists⟩
    · rw [← hpersists.resourceServerId] at hlive
      exact .inr hlive
  · exact .inr (h.resources.live.mp hlive)

end Store

theorem requestsFrom_createAccessRequestWithAudit (input : AgentAccessRequest)
    (audit : AuditEvent) :
    Batch.Within Store.RequestsFrom (Repository.createAccessRequestWithAudit input audit) := by
  refine .bind (fun _ _ _ => .trans) (fun s x t hs => ?_) fun created =>
    .bind (fun _ _ _ => .trans) (.modify fun s => ?_) fun _ => .pure (fun s => ?_) _
  · unfold insertAccessRequest at hs
    by_cases hactive : (s.directory.activeResource input.resourceId).isNone
    · rw [if_pos hactive] at hs
      cases hs
      exact ⟨rfl, fun r hr => .inl hr⟩
    · rw [if_neg hactive] at hs
      split at hs <;> cases hs
      refine ⟨rfl, fun r hr => ?_⟩
      rcases List.mem_append.mp hr with hr | hr
      · exact .inl hr
      · obtain rfl := List.mem_singleton.mp hr
        rw [Option.isNone_iff_eq_none, ← ne_eq, Option.ne_none_iff_isSome] at hactive
        exact .inr (Directory.live_of_activeResource hactive)
  · split <;> exact ⟨rfl, fun r hr => .inl hr⟩
  · exact ⟨rfl, fun r hr => .inl hr⟩

theorem entitlementsFrom_of_same {s t : Store} (h : s.Precedes t) (hrows : s.SameEntitlements t)
    (hresources : s.SameResources t) : s.EntitlementsFrom t :=
  ⟨hresources, fun _ he => .inl (h.persists.entitlements.exists_of_mem_later hrows he)⟩

theorem entitlementsFrom_insertEntitlement (requestId : Id) (input : ScopeEntitlement) :
    Batch.Within Store.EntitlementsFrom (insertEntitlement requestId input) := by
  intro s x t hs
  unfold insertEntitlement at hs
  split at hs
  · rename_i hguard
    cases hs
    refine ⟨rfl, fun e he => ?_⟩
    rcases List.mem_append.mp he with he | he
    · exact .inl ⟨e, he, .refl e⟩
    · obtain rfl := List.mem_singleton.mp he
      have hinsertable := hguard.1
      simp only [Store.entitlementInsertable, Bool.and_eq_true] at hinsertable
      exact .inr (Directory.live_of_activeResource hinsertable.1.1)
  · cases hs
    exact .refl s

theorem entitlementsFrom_approve (a : Approval) :
    Batch.Within Store.EntitlementsFrom (Repository.approveAccessRequestWithEntitlements a) := by
  have htrans : ∀ s t u : Store, s.EntitlementsFrom t → t.EntitlementsFrom u →
      s.EntitlementsFrom u := fun _ _ _ => .trans
  have hkeeps : ∀ {γ : Type} {b : StoreBatch γ}, Batch.Within Store.Precedes b →
      Batch.Within Store.SameRows b → Batch.Within Store.SameTargets b →
      Batch.Within Store.EntitlementsFrom b := fun h₁ h₂ h₃ s x t hs =>
    entitlementsFrom_of_same (h₁ s x t hs) (h₂ s x t hs).entitlements (h₃ s x t hs).resources
  refine .bind htrans (.all .refl htrans fun b hb => ?_) fun inserted => ?_
  · obtain ⟨input, _, rfl⟩ := List.mem_map.mp hb
    exact entitlementsFrom_insertEntitlement a.requestId input
  refine .bind htrans (.all .refl htrans fun b hb => ?_) fun updated => ?_
  · obtain ⟨update, _, rfl⟩ := List.mem_map.mp hb
    exact hkeeps (precedes_updateEntitlement update) (sameRows_updateEntitlement update)
      (sameTargets_updateEntitlement update)
  refine .bind htrans (hkeeps (precedes_updateAccessRequestDecision _ _)
    (sameRows_updateAccessRequestDecision _ _) (sameTargets_updateAccessRequestDecision _ _))
    fun request => ?_
  refine .bind htrans (hkeeps (precedes_insertAudit _ _) (sameRows_insertAudit _ _)
    (sameTargets_insertAudit _ _)) fun _ => ?_
  split
  · exact .pure .refl _
  · split
    · exact .pure .refl _
    · cases request <;> exact .pure .refl _

/-- The row that a direct grant writes, with no guard of its own. -/
def Operation.directGrant : Operation → Option ScopeEntitlement
  | .insertScopeEntitlement input => some input
  | .replaceExpiredEntitlement _ input _ => some input
  | _ => none

variable {op : Operation} {s : Store}

/-- A request that is there after an operation was there before, or was created under an active
resource. -/
theorem mem_requests_perform {r : AgentAccessRequest} (h : r ∈ (op.perform s).requests) :
    (∃ r₀ ∈ s.requests, r₀.Persists r) ∨ s.directory.Live r.resourceId := by
  have hevolves := (precedes_perform op s).persists.requests
  by_cases htargets : op.Targets
  · cases op with
    | createAccessRequest input audit =>
      have hsettle : s.RequestsFrom ((Operation.createAccessRequest input audit).perform s) := by
        refine (requestsFrom_createAccessRequestWithAudit input audit).settle (fun s => ?_) s
        exact ⟨rfl, fun r hr => .inl hr⟩
      exact (hsettle.rows r h).imp (fun hr => ⟨r, hr, .refl r⟩) id
    | deleteResource id now audit =>
      exact .inl (hevolves.exists_of_mem_later
        ((Repository.sameRequests_deleteResource id now audit).settle .refl s) h)
    | administer change => exact .inl ⟨r, h, .refl r⟩
    | _ => exact htargets.elim
  · exact .inl (hevolves.exists_of_mem_later (sameTargets_perform htargets s).requests h)

/-- An entitlement that is there after an operation was there before, was approved under an active
resource, or was granted directly. -/
theorem mem_entitlements_live {e : ScopeEntitlement} (h : e ∈ (op.perform s).entitlements) :
    (∃ e₀ ∈ s.entitlements, e₀.Persists e) ∨ s.directory.Live e.resourceServerId ∨
      op.directGrant = some e := by
  rcases mem_entitlements_perform h with hold | ⟨a, rfl, _⟩ | rfl | ⟨id, now, rfl⟩
  · exact .inl hold
  · have hfrom := (entitlementsFrom_approve a).settle .refl s
    exact (hfrom.rows e h).imp_right .inl
  · exact .inr (.inr rfl)
  · exact .inr (.inr rfl)

end Origins

section Deletion

open Repository

variable {id : Id} {now : ℕ} {audit : AuditEvent} {s : Store}

/-- The store after a deletion, whose batch never fails. -/
theorem perform_deleteResource (id : Id) (now : ℕ) (audit : AuditEvent) (s : Store) :
    ∃ audits,
      (Operation.deleteResource id now audit).perform s = { s with
        audits := audits
        directory := { s.directory with
          resources := updateWhere (fun r => r.id == id && r.deletedAt.isNone)
            (fun r => { r with enabled := false, deletedAt := some now }) s.directory.resources
          authorizations := updateWhere (fun a => a.resourceId == id && a.status == .active)
            (fun a => { a with status := .revoked, revokedAt := some now })
            s.directory.authorizations }
        requests := updateWhere (fun r => r.resourceId == id && r.status == .pending)
          (fun r => { r with status := .denied, decidedAt := some now }) s.requests
        entitlements := updateWhere (fun e => e.resourceServerId == id && e.ended.isNone)
          (·.finish .revoked now) s.entitlements
        leases := updateWhere (fun l =>
            (((updateWhere (fun r => r.resourceId == id && r.status == .pending)
              (fun r => { r with status := .denied, decidedAt := some now }) s.requests).filter
                fun r => r.resourceId == id).map (·.id)).contains l.requestId &&
              l.revokedAt.isNone)
          (fun l => { l with revokedAt := some now }) s.leases } := by
  by_cases hfound : (s.directory.findResource id).isSome
  · refine ⟨s.audits ++ [audit], ?_⟩
    simp only [Operation.perform, Repository.deleteResource, insertAudit, endEntitlements,
      revokeTokenLeases, Batch.settle, Batch.modify, Batch.read, bind, hfound, if_true]
  · refine ⟨s.audits, ?_⟩
    simp only [Operation.perform, Repository.deleteResource, insertAudit, endEntitlements,
      revokeTokenLeases, Batch.settle, Batch.modify, Batch.read, bind, hfound, Bool.false_eq_true,
      if_false]

theorem not_live_perform_deleteResource :
    ¬((Operation.deleteResource id now audit).perform s).directory.Live id := by
  obtain ⟨audits, heq⟩ := perform_deleteResource id now audit s
  rintro ⟨r, hr, hid, hdeleted⟩
  rw [heq] at hr
  obtain ⟨r₀, _, rfl⟩ := mem_updateWhere.mp hr
  by_cases hselected : (r₀.id == id && r₀.deletedAt.isNone) = true
  · rw [if_pos hselected] at hdeleted
    cases hdeleted
  · rw [if_neg hselected] at hid hdeleted
    simp [hid, hdeleted] at hselected

theorem live_perform_deleteResource {id' : Id} (hne : id' ≠ id) :
    s.directory.Live id' →
      ((Operation.deleteResource id now audit).perform s).directory.Live id' := by
  obtain ⟨audits, heq⟩ := perform_deleteResource id now audit s
  rintro ⟨r, hr, rfl, hdeleted⟩
  rw [heq]
  refine ⟨r, mem_updateWhere.mpr ⟨r, hr, ?_⟩, rfl, hdeleted⟩
  simp [hne]

theorem requests_perform_deleteResource {r : AgentAccessRequest}
    (hr : r ∈ ((Operation.deleteResource id now audit).perform s).requests)
    (hid : r.resourceId = id) : r.status ≠ .pending := by
  obtain ⟨audits, heq⟩ := perform_deleteResource id now audit s
  rw [heq] at hr
  obtain ⟨r₀, _, rfl⟩ := mem_updateWhere.mp hr
  split
  · simp
  · rename_i hnot
    simp_all

theorem entitlements_perform_deleteResource {e : ScopeEntitlement}
    (he : e ∈ ((Operation.deleteResource id now audit).perform s).entitlements)
    (hid : e.resourceServerId = id) : e.ended.isSome := by
  obtain ⟨audits, heq⟩ := perform_deleteResource id now audit s
  rw [heq] at he
  obtain ⟨e₀, _, rfl⟩ := mem_updateWhere.mp he
  split
  · rfl
  · rename_i hnot
    simp_all [Option.isSome_iff_ne_none]

theorem leases_perform_deleteResource {l : TokenLease} {r : AgentAccessRequest}
    (hl : l ∈ ((Operation.deleteResource id now audit).perform s).leases)
    (hr : r ∈ ((Operation.deleteResource id now audit).perform s).requests)
    (hid : r.id = l.requestId) (hresource : r.resourceId = id) : l.revokedAt.isSome := by
  obtain ⟨audits, heq⟩ := perform_deleteResource id now audit s
  rw [heq] at hl hr
  obtain ⟨l₀, _, rfl⟩ := mem_updateWhere.mp hl
  have hmem : l₀.requestId ∈ ((updateWhere (fun r => r.resourceId == id && r.status == .pending)
      (fun r => { r with status := .denied, decidedAt := some now }) s.requests).filter
        fun r => r.resourceId == id).map (·.id) := by
    refine List.mem_map.mpr ⟨r, List.mem_filter.mpr ⟨hr, by simpa using hresource⟩, ?_⟩
    split at hid <;> exact hid
  by_cases hrevoked : l₀.revokedAt.isNone
  · rw [if_pos (by rw [List.contains_iff_mem.mpr hmem, hrevoked]; rfl)]
    rfl
  · rw [if_neg (by simp [hrevoked])]
    simpa [Option.isSome_iff_ne_none] using hrevoked

end Deletion

/-- Administration that deletes no Resource Server. -/
theorem Directory.live_change {d : Directory} {c : DirectoryChange} {id : Id}
    (hkeeps : c.keepsResources = true) (h : d.Live id) : (d.change c).Live id := by
  cases c with
  | resource row =>
    have hrow : row.deletedAt = none := by simpa [DirectoryChange.keepsResources] using hkeeps
    by_cases hconflict : d.resourceConflict row = true
    · simpa only [Directory.change, if_pos hconflict] using h
    · simp only [Directory.change, if_neg hconflict]
      obtain ⟨r, hr, rfl, hdeleted⟩ := h
      have hput : r ∈ put ApiResource.id ApiResource.keeps row d.resources ∨
          row ∈ put ApiResource.id ApiResource.keeps row d.resources ∧ r.id = row.id :=
        mem_put_of_mem hr
      rcases hput with hr | ⟨hrow', hkey⟩
      · exact ⟨r, hr, rfl, hdeleted⟩
      · exact ⟨row, hrow', hkey.symm, hrow⟩
  | identity row =>
    by_cases hconflict : d.identityConflict row = true
    · simpa only [Directory.change, if_pos hconflict] using h
    · rw [Directory.change, if_neg hconflict]
      exact h
  | _ => exact h

/-- Only its deletion deletes a Resource Server. -/
theorem live_perform {op : Operation} {s : Store} {id : Id} (hkeeps : op.keepsResources = true)
    (hdelete : ∀ now audit, op ≠ .deleteResource id now audit) (h : s.directory.Live id) :
    (op.perform s).directory.Live id := by
  by_cases htargets : op.Targets
  · cases op with
    | createAccessRequest input audit =>
      have hfrom := (requestsFrom_createAccessRequestWithAudit input audit).settle
        (fun s => ⟨rfl, fun r hr => .inl hr⟩) s
      exact hfrom.resources.live.mpr h
    | deleteResource id' now audit =>
      refine live_perform_deleteResource ?_ h
      rintro rfl
      exact hdelete now audit rfl
    | administer change => exact Directory.live_change hkeeps h
    | _ => exact htargets.elim
  · exact (sameTargets_perform htargets s).resources.live.mpr h

structure Directory.Deleted (d : Directory) (id : Id) : Prop where
  exists_row : ∃ r ∈ d.resources, r.id = id
  notLive : ¬d.Live id

/-- A written row takes the place of a deleted one only if it is deleted itself. -/
theorem Directory.deleted_put {d : Directory} {row : ApiResource} {id : Id} (h : d.Deleted id) :
    ¬Directory.Live { d with
      resources := put ApiResource.id ApiResource.keeps row d.resources } id := by
  rintro ⟨r, hr, rfl, hnone⟩
  have hdead : ∀ q ∈ d.resources, q.id = r.id → q.deletedAt.isSome := by
    intro q hq hid
    rw [Option.isSome_iff_ne_none]
    exact fun hlive => h.notLive ⟨q, hq, hid, hlive⟩
  change r ∈ put ApiResource.id ApiResource.keeps row d.resources at hr
  unfold put at hr
  split at hr
  · obtain ⟨q, hq, rfl⟩ := mem_updateWhere.mp hr
    by_cases hselected : (decide (q.id = row.id) && q.keeps row) = true
    · rw [if_pos hselected] at hnone hdead
      rw [Bool.and_eq_true, decide_eq_true_eq] at hselected
      have hpersists := ApiResource.persists_of_keeps hselected.1 hselected.2
      have hsome := hpersists.deleted (hdead q hq hselected.1)
      rw [hnone] at hsome
      cases hsome
    · rw [if_neg hselected] at hnone hdead
      have hsome := hdead q hq rfl
      rw [hnone] at hsome
      cases hsome
  · rename_i hnew
    rcases List.mem_append.mp hr with hr | hr
    · have hsome := hdead r hr rfl
      rw [hnone] at hsome
      cases hsome
    · obtain rfl := List.mem_singleton.mp hr
      obtain ⟨q, hq, hid⟩ := h.exists_row
      exact hnew (List.any_eq_true.mpr ⟨q, hq, by simpa using hid⟩)

/-- A deletion is never taken back. -/
theorem deleted_perform {op : Operation} {s : Store} {id : Id} (h : s.directory.Deleted id) :
    (op.perform s).directory.Deleted id := by
  obtain ⟨r, hr, hid⟩ := h.exists_row
  obtain ⟨r', hr', hpersists⟩ :=
    (precedes_perform op s).persists.directory.resources.exists_of_mem hr
  refine ⟨⟨r', hr', hpersists.id.trans hid⟩, ?_⟩
  by_cases htargets : op.Targets
  · cases op with
    | createAccessRequest input audit =>
      have hfrom := (requestsFrom_createAccessRequestWithAudit input audit).settle
        (fun s => ⟨rfl, fun r hr => .inl hr⟩) s
      exact fun hlive => h.notLive (hfrom.resources.live.mp hlive)
    | deleteResource id' now audit =>
      rintro ⟨q, hq, hqid, hnone⟩
      obtain ⟨audits, heq⟩ := perform_deleteResource id' now audit s
      rw [heq] at hq
      obtain ⟨q₀, hq₀, rfl⟩ := mem_updateWhere.mp hq
      by_cases hselected : (q₀.id == id' && q₀.deletedAt.isNone) = true
      · rw [if_pos hselected] at hnone
        cases hnone
      · rw [if_neg hselected] at hqid hnone
        exact h.notLive ⟨q₀, hq₀, hqid, hnone⟩
    | administer c =>
      cases c with
      | resource row =>
        by_cases hconflict : s.directory.resourceConflict row = true
        · change ¬(s.directory.change (.resource row)).Live id
          rw [Directory.change, if_pos hconflict]
          exact h.notLive
        · change ¬(s.directory.change (.resource row)).Live id
          rw [Directory.change, if_neg hconflict]
          exact Directory.deleted_put h
      | identity row =>
        by_cases hconflict : s.directory.identityConflict row = true
        · change ¬(s.directory.change (.identity row)).Live id
          rw [Directory.change, if_pos hconflict]
          exact h.notLive
        · change ¬(s.directory.change (.identity row)).Live id
          rw [Directory.change, if_neg hconflict]
          exact h.notLive
      | _ => exact h.notLive
    | _ => exact htargets.elim
  · exact fun hlive => h.notLive ((sameTargets_perform htargets s).resources.live.mp hlive)

end FlareAuth
