import FlareAuth.Revocations

/-!
# What grants access to an Agent

An operation that neither inserts an entitlement of an Agent nor sets the
lifetime of one leaves it with no access that it did not have before.
-/

namespace FlareAuth

open Concurrent Relational Repository Statement

variable {α β : Type}

section Frames

/-- The same grant, which has been extended in no way. -/
structure ScopeEntitlement.Fades (old new : ScopeEntitlement) : Prop where
  id : new.id = old.id
  subject : new.subject = old.subject
  lifetime : new.lifetime = old.lifetime
  ended : old.ended.isSome → new.ended.isSome

namespace ScopeEntitlement.Fades

theorem refl (e : ScopeEntitlement) : e.Fades e := ⟨rfl, rfl, rfl, fun h => h⟩

theorem trans {e f g : ScopeEntitlement} (h : e.Fades f) (h' : f.Fades g) : e.Fades g :=
  ⟨h'.id.trans h.id, h'.subject.trans h.subject, h'.lifetime.trans h.lifetime,
    fun he => h'.ended (h.ended he)⟩

theorem finish (e : ScopeEntitlement) (reason : EndReason) (now : ℕ) :
    e.Fades (e.finish reason now) := ⟨rfl, rfl, rfl, fun _ => rfl⟩

theorem agentIdentityId {e f : ScopeEntitlement} (h : e.Fades f) :
    f.agentIdentityId = e.agentIdentityId := by
  rw [ScopeEntitlement.agentIdentityId, h.subject, ← ScopeEntitlement.agentIdentityId]

theorem active {e f : ScopeEntitlement} (h : e.Fades f) {now : ℕ} (hf : f.active now = true) :
    e.active now = true := by
  simp only [ScopeEntitlement.active, ScopeEntitlement.unexpired, ScopeEntitlement.expiresAt,
    h.lifetime, Bool.and_eq_true, Option.isNone_iff_eq_none] at hf ⊢
  refine ⟨?_, hf.2⟩
  cases hended : e.ended with
  | none => rfl
  | some x =>
    have hlater := h.ended (by rw [hended]; rfl)
    rw [hf.1] at hlater
    cases hlater

end ScopeEntitlement.Fades

variable {id : Id} {ids : List Id}

/-- Each entitlement of the Agent was there before, and it only fades unless its identifier is one
of those given. -/
def Store.FadesFor (id : Id) (ids : List Id) (s t : Store) : Prop :=
  ∀ e ∈ t.entitlements, e.agentIdentityId = some id →
    ∃ e₀ ∈ s.entitlements, e₀.id = e.id ∧ e₀.agentIdentityId = some id ∧
      (e.id ∈ ids ∨ e₀.Fades e)

theorem Store.FadesFor.of_mem {s : Store} {e : ScopeEntitlement} (he : e ∈ s.entitlements)
    (hagent : e.agentIdentityId = some id) : ∃ e₀ ∈ s.entitlements, e₀.id = e.id ∧
      e₀.agentIdentityId = some id ∧ (e.id ∈ ids ∨ e₀.Fades e) :=
  ⟨e, he, rfl, hagent, .inr (.refl e)⟩

theorem Store.FadesFor.refl (s : Store) : s.FadesFor id ids s := fun _ => Store.FadesFor.of_mem

theorem Store.FadesFor.trans {s t u : Store} (h : s.FadesFor id ids t)
    (h' : t.FadesFor id ids u) : s.FadesFor id ids u := by
  intro e he hagent
  obtain ⟨e₁, he₁, hid₁, hagent₁, hchange₁⟩ := h' e he hagent
  obtain ⟨e₀, he₀, hid₀, hagent₀, hchange₀⟩ := h e₁ he₁ hagent₁
  refine ⟨e₀, he₀, hid₀.trans hid₁, hagent₀, ?_⟩
  rcases hchange₁ with hmem | hfades₁
  · exact .inl hmem
  · rcases hchange₀ with hmem | hfades₀
    · exact .inl (hid₁ ▸ hmem)
    · exact .inr (hfades₀.trans hfades₁)

theorem Store.FadesFor.of_eq {s t : Store} (h : t.entitlements = s.entitlements) :
    s.FadesFor id ids t := by
  intro e he
  rw [h] at he
  exact Store.FadesFor.of_mem he

/-- Entitlements that are ended, or are extended and have one of the identifiers. -/
theorem Store.FadesFor.update {s t : Store} {p : ScopeEntitlement → Bool}
    {f : ScopeEntitlement → ScopeEntitlement} (h : t.entitlements = updateWhere p f s.entitlements)
    (hsame : ∀ e, (f e).id = e.id ∧ (f e).agentIdentityId = e.agentIdentityId)
    (hf : ∀ e, p e = true → e.id ∈ ids ∨ e.Fades (f e)) : s.FadesFor id ids t := by
  intro e he hagent
  rw [h] at he
  obtain ⟨e₀, he₀, rfl⟩ := mem_updateWhere.mp he
  by_cases hp : p e₀ = true
  · rw [if_pos hp] at hagent ⊢
    obtain ⟨hid, hagent'⟩ := hsame e₀
    refine ⟨e₀, he₀, hid.symm, hagent'.symm.trans hagent, ?_⟩
    rw [hid]
    exact hf e₀ hp
  · rw [if_neg hp] at hagent ⊢
    exact Store.FadesFor.of_mem he₀ hagent

theorem Store.FadesFor.append {s t : Store} {row : ScopeEntitlement}
    (h : t.entitlements = s.entitlements ++ [row]) (hrow : row.agentIdentityId ≠ some id) :
    s.FadesFor id ids t := by
  intro e he hagent
  rw [h] at he
  rcases List.mem_append.mp he with he | he
  · exact Store.FadesFor.of_mem he hagent
  · obtain rfl := List.mem_singleton.mp he
    exact absurd hagent hrow

namespace Statement

theorem fadesFor_bind {b : StoreBatch α} {f : α → StoreBatch β}
    (hb : Batch.Within (Store.FadesFor id ids) b)
    (hf : ∀ x, Batch.Within (Store.FadesFor id ids) (f x)) :
    Batch.Within (Store.FadesFor id ids) (b >>= f) := hb.bind (fun _ _ _ => .trans) hf

theorem fadesFor_pure (x : α) :
    Batch.Within (Store.FadesFor id ids) (pure x : StoreBatch α) := .pure .refl x

theorem fadesFor_read (f : Store → α) :
    Batch.Within (Store.FadesFor id ids) (Batch.read f : StoreBatch α) := .read .refl f

theorem fadesFor_insertAudit (audit : AuditEvent) (selected : Store → Bool) :
    Batch.Within (Store.FadesFor id ids) (insertAudit audit selected) := by
  refine .modify fun s => ?_
  split <;> exact .of_eq rfl

theorem fadesFor_endEntitlements (selected : ScopeEntitlement → Bool) (reason : EndReason)
    (now : ℕ) : Batch.Within (Store.FadesFor id ids) (endEntitlements selected reason now) :=
  .modify fun _ => .update rfl (fun _ => ⟨rfl, rfl⟩) fun e _ => .inr (.finish e reason now)

theorem fadesFor_revokeTokenLeases (selected : TokenLease → Bool) (now : ℕ) :
    Batch.Within (Store.FadesFor id ids) (revokeTokenLeases selected now) :=
  .modify fun _ => .of_eq rfl

theorem fadesFor_updateAccessRequestDecision (requestId : Id) (decision : AccessDecision) :
    Batch.Within (Store.FadesFor id ids) (updateAccessRequestDecision requestId decision) := by
  intro s x t hs
  cases hs
  exact .of_eq rfl

theorem fadesFor_insertEntitlement (requestId : Id) {input : ScopeEntitlement}
    (h : input.agentIdentityId ≠ some id) :
    Batch.Within (Store.FadesFor id ids) (insertEntitlement requestId input) := by
  intro s x t hs
  unfold insertEntitlement at hs
  split at hs
  · cases hs
    exact .append rfl h
  · cases hs
    exact .refl s

theorem fadesFor_updateEntitlement {update : EntitlementUpdate} (h : update.id ∈ ids) :
    Batch.Within (Store.FadesFor id ids) (updateEntitlement update) := by
  refine fadesFor_bind (fadesFor_read _) fun _ => fadesFor_bind ?_ fun _ => fadesFor_pure _
  intro s x t hs
  unfold setEntitlements at hs
  split at hs
  · cases hs
    refine .update rfl (fun _ => ⟨rfl, rfl⟩) fun e he => .inl ?_
    rw [Bool.and_eq_true, beq_iff_eq] at he
    rwa [he.1]
  · cases hs

end Statement

namespace Repository

theorem fadesFor_approve {a : Approval}
    (hinserts : ∀ e ∈ a.entitlements, e.agentIdentityId ≠ some id)
    (hupdates : ∀ u ∈ a.updates, u.id ∈ ids) :
    Batch.Within (Store.FadesFor id ids) (approveAccessRequestWithEntitlements a) := by
  refine fadesFor_bind (.all .refl (fun _ _ _ => .trans) fun b hb => ?_) fun inserted => ?_
  · obtain ⟨input, hinput, rfl⟩ := List.mem_map.mp hb
    exact fadesFor_insertEntitlement a.requestId (hinserts input hinput)
  refine fadesFor_bind (.all .refl (fun _ _ _ => .trans) fun b hb => ?_) fun updated => ?_
  · obtain ⟨update, hupdate, rfl⟩ := List.mem_map.mp hb
    exact fadesFor_updateEntitlement (hupdates update hupdate)
  refine fadesFor_bind (fadesFor_updateAccessRequestDecision _ _) fun request => ?_
  refine fadesFor_bind (fadesFor_insertAudit _ _) fun _ => ?_
  split
  · exact fadesFor_pure _
  · split
    · exact fadesFor_pure _
    · cases request <;> exact fadesFor_pure _

theorem fadesFor_endEntitlement (entitlementId : Id) (reason : EndReason) (now : ℕ) :
    Batch.Within (Store.FadesFor id ids) (endEntitlement entitlementId reason now) :=
  fadesFor_bind (fadesFor_read _) fun _ =>
    fadesFor_bind (fadesFor_endEntitlements _ _ _) fun _ => fadesFor_pure _

theorem fadesFor_issueTokenLeaseWithAudit (i : Issuance) :
    Batch.Within (Store.FadesFor id ids) (issueTokenLeaseWithAudit i) := by
  refine fadesFor_bind (fun s x t hs => ?_) fun lease => fadesFor_bind (.modify fun s => ?_)
    fun _ => fadesFor_bind (.modify fun s => ?_) fun _ =>
      fadesFor_bind (fadesFor_insertAudit _ _) fun _ => fadesFor_pure _
  · unfold insertTokenLease at hs
    split at hs
    · split at hs <;> cases hs
      exact .of_eq rfl
    · cases hs
      exact .refl s
  · split <;> exact .of_eq rfl
  · split
    · exact .update rfl (fun _ => ⟨rfl, rfl⟩) fun e _ => .inr (.finish e .consumed i.now)
    · exact .refl s

theorem fadesFor_revokeResourceAuthorizations (authorizations : List Id) (now : ℕ) :
    Batch.Within (Store.FadesFor id ids) (revokeResourceAuthorizations authorizations now) := by
  refine fadesFor_bind (.modify fun _ => .of_eq rfl) fun _ =>
    fadesFor_bind (fun s x t hs => ?_) fun _ => .modify fun _ => .of_eq rfl
  unfold setEntitlements at hs
  split at hs
  · cases hs
    exact .update rfl (fun _ => ⟨rfl, rfl⟩) fun e _ => .inr ⟨rfl, rfl, rfl, fun h => h⟩
  · cases hs

theorem fadesFor_deleteResource (resourceId : Id) (now : ℕ) (audit : AuditEvent) :
    Batch.Within (Store.FadesFor id ids) (deleteResource resourceId now audit) :=
  fadesFor_bind (fadesFor_insertAudit _ _) fun _ =>
    fadesFor_bind (.modify fun _ => .of_eq rfl) fun _ =>
      fadesFor_bind (.modify fun _ => .of_eq rfl) fun _ =>
        fadesFor_bind (fadesFor_endEntitlements _ _ _) fun _ =>
          fadesFor_bind (fadesFor_read _) fun _ => fadesFor_revokeTokenLeases _ _

end Repository

end Frames

def Operation.inserts : Operation → List ScopeEntitlement
  | .approve a => a.entitlements
  | .insertScopeEntitlement input => [input]
  | .replaceExpiredEntitlement _ input _ => [input]
  | _ => []

def Operation.extends : Operation → List Id
  | .approve a => a.updates.map (·.id)
  | .strengthenEntitlement id _ _ => [id]
  | _ => []

/-- Unless an operation inserts an entitlement of an Agent, those it has fade or are extended. -/
theorem fadesFor_perform {op : Operation} {id : Id} {s : Store}
    (hinserts : ∀ e ∈ op.inserts, e.agentIdentityId ≠ some id) :
    s.FadesFor id op.extends (op.perform s) := by
  have hsettle : ∀ {γ : Type} {b : StoreBatch γ},
      Batch.Within (Store.FadesFor id op.extends) b →
      s.FadesFor id op.extends (b.settle s) := fun h => h.settle .refl s
  cases op with
  | approve a => exact hsettle (fadesFor_approve hinserts fun u hu => List.mem_map_of_mem hu)
  | insertScopeEntitlement input =>
    refine hsettle fun s x t hs => ?_
    unfold insertScopeEntitlement at hs
    split at hs
    · cases hs
      exact .append rfl (hinserts input List.mem_cons_self)
    · cases hs
      exact .refl s
  | replaceExpiredEntitlement existingId input now =>
    refine hsettle (fadesFor_bind (fadesFor_endEntitlements _ _ _) fun _ s x t hs => ?_)
    unfold setEntitlements at hs
    split at hs
    · cases hs
      exact .append rfl (hinserts input List.mem_cons_self)
    · cases hs
  | strengthenEntitlement entitlementId lifetime hash =>
    refine hsettle (fadesFor_bind (fun s x t hs => ?_) fun _ => fadesFor_read _)
    unfold setEntitlements at hs
    split at hs
    · cases hs
      refine .update rfl (fun _ => ⟨rfl, rfl⟩) fun e he => .inl ?_
      rw [beq_iff_eq] at he
      rw [he]
      exact List.mem_cons_self
    · cases hs
  | read q => exact .refl s
  | generateId => exact .of_eq rfl
  | elapse milliseconds => exact .of_eq rfl
  | outside world => exact .of_eq rfl
  | administer change => exact .of_eq rfl
  | createAccessRequest input audit =>
    refine hsettle (fadesFor_bind (fun s x t hs => ?_) fun _ =>
      fadesFor_bind (fadesFor_insertAudit _ _) fun _ => fadesFor_pure _)
    unfold insertAccessRequest at hs
    split at hs
    · cases hs
      exact .refl s
    · split at hs <;> cases hs
      exact .of_eq rfl
  | decideAccessRequest requestId decision audit =>
    exact hsettle (fadesFor_bind (fadesFor_insertAudit _ _) fun _ =>
      fadesFor_updateAccessRequestDecision requestId decision)
  | endEntitlement entitlementId reason now =>
    exact hsettle (fadesFor_endEntitlement entitlementId reason now)
  | endEntitlementWithAudit entitlementId reason leaseIds now audit =>
    exact hsettle (fadesFor_bind (fadesFor_insertAudit _ _) fun _ =>
      fadesFor_bind (fadesFor_endEntitlement entitlementId reason now) fun _ =>
        fadesFor_bind (fadesFor_revokeTokenLeases _ _) fun _ => fadesFor_pure _)
  | endEntitlementsById ids now => exact hsettle (fadesFor_endEntitlements _ _ _)
  | issueTokenLease i => exact hsettle (fadesFor_issueTokenLeaseWithAudit i)
  | revokeTokenLease leaseId now => exact hsettle (fadesFor_revokeTokenLeases _ _)
  | revokeConnection connectionId now => exact .of_eq rfl
  | revokeProviderConnection connectionId owner account => exact .of_eq rfl
  | revokeResourceAuthorizations ids now =>
    exact hsettle (fadesFor_revokeResourceAuthorizations ids now)
  | deleteResource resourceId now audit =>
    exact hsettle (fadesFor_deleteResource resourceId now audit)

end FlareAuth
