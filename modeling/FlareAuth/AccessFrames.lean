import FlareAuth.AccessHistory

/-!
# What each operation leaves alone

Only the issuance of a token inserts a lease, and only an approval and the two
grants insert entitlements. Every other operation keeps the number of rows, so
each row that is there afterwards was there before.
-/

namespace FlareAuth

open Concurrent Relational Statement

variable {α β : Type}

namespace Store

def SameLeases (s t : Store) : Prop := t.leases.length = s.leases.length

def SameEntitlements (s t : Store) : Prop := t.entitlements.length = s.entitlements.length

theorem SameLeases.refl (s : Store) : s.SameLeases s := rfl

theorem SameLeases.trans {s t u : Store} (h : s.SameLeases t) (h' : t.SameLeases u) :
    s.SameLeases u := Eq.trans h' h

theorem SameEntitlements.refl (s : Store) : s.SameEntitlements s := rfl

theorem SameEntitlements.trans {s t u : Store} (h : s.SameEntitlements t)
    (h' : t.SameEntitlements u) : s.SameEntitlements u := Eq.trans h' h

structure SameRows (s t : Store) : Prop where
  leases : s.SameLeases t
  entitlements : s.SameEntitlements t

theorem SameRows.refl (s : Store) : s.SameRows s := ⟨rfl, rfl⟩

theorem SameRows.trans {s t u : Store} (h : s.SameRows t) (h' : t.SameRows u) : s.SameRows u :=
  ⟨h.1.trans h'.1, h.2.trans h'.2⟩

end Store

namespace Statement

theorem sameRows_bind {b : StoreBatch α} {f : α → StoreBatch β}
    (hb : Batch.Within Store.SameRows b) (hf : ∀ x, Batch.Within Store.SameRows (f x)) :
    Batch.Within Store.SameRows (b >>= f) := hb.bind (fun _ _ _ => .trans) hf

theorem sameRows_pure (x : α) : Batch.Within Store.SameRows (pure x : StoreBatch α) := .pure .refl x

theorem sameRows_read (f : Store → α) :
    Batch.Within Store.SameRows (Batch.read f : StoreBatch α) := .read .refl f

theorem sameRows_insertAudit (audit : AuditEvent) (selected : Store → Bool) :
    Batch.Within Store.SameRows (insertAudit audit selected) := by
  refine .modify fun s => ?_
  split <;> exact ⟨rfl, rfl⟩

theorem sameRows_setEntitlements {f : List ScopeEntitlement → List ScopeEntitlement}
    (h : ∀ rows, (f rows).length = rows.length) :
    Batch.Within Store.SameRows (setEntitlements f) := by
  intro s x t hs
  unfold setEntitlements at hs
  split at hs
  · cases hs
    exact ⟨rfl, h _⟩
  · cases hs

theorem sameRows_insertAccessRequest (input : AgentAccessRequest) :
    Batch.Within Store.SameRows (insertAccessRequest input) := by
  intro s x t hs
  unfold insertAccessRequest at hs
  split at hs
  · cases hs
    exact .refl s
  · split at hs
    · cases hs
    · cases hs
      exact ⟨rfl, rfl⟩

theorem sameRows_updateAccessRequestDecision (id : Id) (decision : AccessDecision) :
    Batch.Within Store.SameRows (updateAccessRequestDecision id decision) := by
  intro s x t hs
  cases hs
  exact ⟨rfl, rfl⟩

theorem sameRows_updateEntitlement (update : EntitlementUpdate) :
    Batch.Within Store.SameRows (updateEntitlement update) :=
  sameRows_bind (sameRows_read _) fun _ =>
    sameRows_bind (sameRows_setEntitlements fun _ => length_updateWhere _ _ _) fun _ =>
      sameRows_pure _

theorem sameRows_endEntitlements (selected : ScopeEntitlement → Bool) (reason : EndReason)
    (now : ℕ) : Batch.Within Store.SameRows (endEntitlements selected reason now) :=
  .modify fun _ => ⟨rfl, length_updateWhere _ _ _⟩

theorem sameRows_revokeTokenLeases (selected : TokenLease → Bool) (now : ℕ) :
    Batch.Within Store.SameRows (revokeTokenLeases selected now) :=
  .modify fun _ => ⟨length_updateWhere _ _ _, rfl⟩

theorem sameLeases_insertEntitlement (requestId : Id) (input : ScopeEntitlement) :
    Batch.Within Store.SameLeases (insertEntitlement requestId input) := by
  intro s x t hs
  unfold insertEntitlement at hs
  split at hs <;> cases hs <;> rfl

theorem sameEntitlements_insertTokenLease (input : TokenLease) (boundary : TokenLeaseBoundary) :
    Batch.Within Store.SameEntitlements (insertTokenLease input boundary) := by
  intro s x t hs
  unfold insertTokenLease at hs
  split at hs
  · split at hs
    · cases hs
    · cases hs
      rfl
  · cases hs
    rfl

theorem sameEntitlements_consumeAccessRequest (requestId leaseId : Id) :
    Batch.Within Store.SameEntitlements (consumeAccessRequest requestId leaseId) := by
  refine .modify fun s => ?_
  split <;> rfl

theorem sameEntitlements_consumeEntitlements (ids : List Id) (leaseId : Id) (now : ℕ) :
    Batch.Within Store.SameEntitlements (consumeEntitlements ids leaseId now) := by
  refine .modify fun s => ?_
  split
  · exact length_updateWhere _ _ _
  · rfl

end Statement

namespace Repository

theorem sameLeases_approveAccessRequestWithEntitlements (a : Approval) :
    Batch.Within Store.SameLeases (approveAccessRequestWithEntitlements a) := by
  have htrans : ∀ s t u : Store, s.SameLeases t → t.SameLeases u → s.SameLeases u :=
    fun _ _ _ => .trans
  have hrows : ∀ {γ : Type} {b : StoreBatch γ}, Batch.Within Store.SameRows b →
      Batch.Within Store.SameLeases b := fun h => h.mono fun _ _ => Store.SameRows.leases
  refine .bind htrans (.all .refl htrans fun b hb => ?_) fun inserted => ?_
  · obtain ⟨input, _, rfl⟩ := List.mem_map.mp hb
    exact sameLeases_insertEntitlement a.requestId input
  refine .bind htrans (.all .refl htrans fun b hb => ?_) fun updated => ?_
  · obtain ⟨update, _, rfl⟩ := List.mem_map.mp hb
    exact hrows (sameRows_updateEntitlement update)
  refine .bind htrans (hrows (sameRows_updateAccessRequestDecision _ _)) fun request => ?_
  refine .bind htrans (hrows (sameRows_insertAudit _ _)) fun _ => ?_
  split
  · exact .pure .refl _
  · split
    · exact .pure .refl _
    · cases request <;> exact .pure .refl _

theorem sameEntitlements_issueTokenLeaseWithAudit (i : Issuance) :
    Batch.Within Store.SameEntitlements (issueTokenLeaseWithAudit i) := by
  have htrans : ∀ s t u : Store,
      s.SameEntitlements t → t.SameEntitlements u → s.SameEntitlements u :=
    fun _ _ _ => .trans
  refine .bind htrans (sameEntitlements_insertTokenLease _ _) fun lease => ?_
  refine .bind htrans (sameEntitlements_consumeAccessRequest _ _) fun _ => ?_
  refine .bind htrans (sameEntitlements_consumeEntitlements _ _ _) fun _ => ?_
  refine .bind htrans ((sameRows_insertAudit _ _).mono fun _ _ => Store.SameRows.entitlements)
    fun _ => ?_
  exact .pure .refl _

theorem sameRows_endEntitlement (id : Id) (reason : EndReason) (now : ℕ) :
    Batch.Within Store.SameRows (endEntitlement id reason now) :=
  sameRows_bind (sameRows_read _) fun _ =>
    sameRows_bind (sameRows_endEntitlements _ _ _) fun _ => sameRows_pure _

theorem sameRows_decideAccessRequestWithAudit (id : Id) (decision : AccessDecision)
    (audit : AuditEvent) :
    Batch.Within Store.SameRows (decideAccessRequestWithAudit id decision audit) :=
  sameRows_bind (sameRows_insertAudit _ _) fun _ =>
    sameRows_updateAccessRequestDecision id decision

theorem sameRows_endEntitlementWithAudit (id : Id) (reason : EndReason) (tokenLeaseIds : List Id)
    (now : ℕ) (audit : AuditEvent) :
    Batch.Within Store.SameRows (endEntitlementWithAudit id reason tokenLeaseIds now audit) :=
  sameRows_bind (sameRows_insertAudit _ _) fun _ =>
    sameRows_bind (sameRows_endEntitlement id reason now) fun _ =>
      sameRows_bind (sameRows_revokeTokenLeases _ _) fun _ => sameRows_pure _

theorem sameRows_revokeResourceAuthorizations (ids : List Id) (now : ℕ) :
    Batch.Within Store.SameRows (revokeResourceAuthorizations ids now) :=
  sameRows_bind (.modify fun _ => ⟨rfl, rfl⟩) fun _ =>
    sameRows_bind (sameRows_setEntitlements fun _ => length_updateWhere _ _ _) fun _ =>
      .modify fun _ => ⟨rfl, rfl⟩

theorem sameRows_deleteResource (id : Id) (now : ℕ) (audit : AuditEvent) :
    Batch.Within Store.SameRows (deleteResource id now audit) :=
  sameRows_bind (sameRows_insertAudit _ _) fun _ =>
    sameRows_bind (.modify fun _ => ⟨rfl, rfl⟩) fun _ =>
      sameRows_bind (.modify fun _ => ⟨rfl, rfl⟩) fun _ =>
        sameRows_bind (sameRows_endEntitlements _ _ _) fun _ =>
          sameRows_bind (sameRows_read _) fun _ => sameRows_revokeTokenLeases _ _

end Repository

def Operation.Grants : Operation → Prop
  | .approve _ => True
  | .insertScopeEntitlement _ => True
  | .replaceExpiredEntitlement .. => True
  | _ => False

def Operation.Issues : Operation → Prop
  | .issueTokenLease _ => True
  | _ => False

open Repository in
theorem sameRows_perform {op : Operation} (hgrants : ¬op.Grants) (hissues : ¬op.Issues)
    (s : Store) : s.SameRows (op.perform s) := by
  have hsettle : ∀ {γ : Type} {b : StoreBatch γ}, Batch.Within Store.SameRows b →
      s.SameRows (b.settle s) := fun h => h.settle .refl s
  cases op with
  | approve a => exact absurd trivial hgrants
  | insertScopeEntitlement input => exact absurd trivial hgrants
  | replaceExpiredEntitlement id input now => exact absurd trivial hgrants
  | issueTokenLease i => exact absurd trivial hissues
  | read q => exact .refl s
  | generateId => exact ⟨rfl, rfl⟩
  | elapse milliseconds => exact ⟨rfl, rfl⟩
  | outside world => exact ⟨rfl, rfl⟩
  | administer change => exact ⟨rfl, rfl⟩
  | createAccessRequest input audit =>
    exact hsettle (sameRows_bind (sameRows_insertAccessRequest input) fun _ =>
      sameRows_bind (sameRows_insertAudit _ _) fun _ => sameRows_pure _)
  | decideAccessRequest id decision audit =>
    exact hsettle (sameRows_decideAccessRequestWithAudit id decision audit)
  | endEntitlement id reason now => exact hsettle (sameRows_endEntitlement id reason now)
  | endEntitlementWithAudit id reason ids now audit =>
    exact hsettle (sameRows_endEntitlementWithAudit id reason ids now audit)
  | endEntitlementsById ids now => exact hsettle (sameRows_endEntitlements _ _ _)
  | revokeTokenLease id now => exact hsettle (sameRows_revokeTokenLeases _ _)
  | strengthenEntitlement id lifetime hash =>
    exact hsettle (sameRows_bind (sameRows_setEntitlements fun _ => length_updateWhere _ _ _)
      fun _ => sameRows_read _)
  | revokeConnection id now => exact ⟨rfl, rfl⟩
  | revokeProviderConnection id owner account => exact ⟨rfl, rfl⟩
  | revokeResourceAuthorizations ids now =>
    exact hsettle (sameRows_revokeResourceAuthorizations ids now)
  | deleteResource id now audit => exact hsettle (sameRows_deleteResource id now audit)

open Repository in
theorem sameLeases_perform {op : Operation} (h : ¬op.Issues) (s : Store) :
    s.SameLeases (op.perform s) := by
  by_cases hgrants : op.Grants
  · cases op with
    | approve a =>
      exact (sameLeases_approveAccessRequestWithEntitlements a).settle .refl s
    | insertScopeEntitlement input =>
      have hinsert : Batch.Within Store.SameLeases (insertScopeEntitlement input) := by
        intro s x t hs
        unfold insertScopeEntitlement at hs
        split at hs <;> cases hs <;> rfl
      exact hinsert.settle .refl s
    | replaceExpiredEntitlement id input now =>
      have hreplace : Batch.Within Store.SameLeases (replaceExpiredEntitlement id input now) := by
        refine .bind (fun _ _ _ => .trans) (.modify fun _ => rfl) fun _ s x t hs => ?_
        unfold setEntitlements at hs
        split at hs <;> cases hs
        rfl
      exact hreplace.settle .refl s
    | _ => exact hgrants.elim
  · exact (sameRows_perform hgrants h s).leases

open Repository in
theorem sameEntitlements_perform {op : Operation} (h : ¬op.Grants) (s : Store) :
    s.SameEntitlements (op.perform s) := by
  by_cases hissues : op.Issues
  · cases op with
    | issueTokenLease i =>
      exact (sameEntitlements_issueTokenLeaseWithAudit i).settle .refl s
    | _ => exact hissues.elim
  · exact (sameRows_perform h hissues s).entitlements

end FlareAuth
