import FlareAuth.AccessOperation
import FlareAuth.Concurrent.Pool

/-!
# What every operation preserves

Requests, entitlements and leases are never deleted and keep most of their
columns: a decided request keeps its Context, an ended entitlement stays ended
and a revoked lease stays revoked. Every statement of the repository respects
this and the unique indexes, and hence every operation does.
-/

namespace FlareAuth

open Concurrent Relational Statement

structure AgentAccessRequest.Persists (old new : AgentAccessRequest) : Prop where
  id : new.id = old.id
  resourceId : new.resourceId = old.resourceId
  agentIdentityId : new.agentIdentityId = old.agentIdentityId
  bindingId : new.bindingId = old.bindingId
  scopes : new.scopes = old.scopes
  status : old.status = .pending ∨ new.status = old.status ∨
    (old.status = .approved ∧ new.status = .consumed)
  authorizationDetails : old.status ≠ .pending →
    new.authorizationDetails = old.authorizationDetails
  connectionId : old.status ≠ .pending →
    new.connectionId = old.connectionId ∨ new.connectionId = none

structure ScopeEntitlement.Persists (old new : ScopeEntitlement) : Prop where
  id : new.id = old.id
  subject : new.subject = old.subject
  resourceServerId : new.resourceServerId = old.resourceServerId
  authorizationDetails : new.authorizationDetails = old.authorizationDetails
  scope : new.scope = old.scope
  grantedBy : new.grantedBy = old.grantedBy
  sourceAccessRequestId : new.sourceAccessRequestId = old.sourceAccessRequestId
  connectionId : new.connectionId = old.connectionId ∨ new.connectionId = none
  ended : old.ended.isSome → new.ended.isSome

structure TokenLease.Persists (old new : TokenLease) : Prop where
  columns : new = { old with revokedAt := new.revokedAt }
  revoked : old.revokedAt.isSome → new.revokedAt.isSome

namespace AgentAccessRequest.Persists

theorem refl (r : AgentAccessRequest) : r.Persists r :=
  ⟨rfl, rfl, rfl, rfl, rfl, .inr (.inl rfl), fun _ => rfl, fun _ => .inl rfl⟩

theorem decided {r q : AgentAccessRequest} (h : r.Persists q) (hr : r.status ≠ .pending) :
    q.status ≠ .pending := by
  rcases h.status with hp | he | ⟨_, hc⟩
  · exact absurd hp hr
  · rwa [he]
  · simp [hc]

theorem trans {r q p : AgentAccessRequest} (h : r.Persists q) (h' : q.Persists p) :
    r.Persists p where
  id := h'.id.trans h.id
  resourceId := h'.resourceId.trans h.resourceId
  agentIdentityId := h'.agentIdentityId.trans h.agentIdentityId
  bindingId := h'.bindingId.trans h.bindingId
  scopes := h'.scopes.trans h.scopes
  status := by
    rcases h.status with hp | he | ⟨ha, hc⟩
    · exact .inl hp
    · rw [← he]
      exact h'.status
    · rcases h'.status with hp' | he' | ⟨ha', _⟩
      · rw [hc] at hp'
        cases hp'
      · exact .inr (.inr ⟨ha, he'.trans hc⟩)
      · rw [hc] at ha'
        cases ha'
  authorizationDetails hr :=
    (h'.authorizationDetails (h.decided hr)).trans (h.authorizationDetails hr)
  connectionId hr := by
    rcases h'.connectionId (h.decided hr) with he | hn
    · rw [he]
      exact h.connectionId hr
    · exact .inr hn

end AgentAccessRequest.Persists

namespace ScopeEntitlement.Persists

theorem refl (e : ScopeEntitlement) : e.Persists e :=
  ⟨rfl, rfl, rfl, rfl, rfl, rfl, rfl, .inl rfl, fun h => h⟩

theorem trans {e f g : ScopeEntitlement} (h : e.Persists f) (h' : f.Persists g) :
    e.Persists g where
  id := h'.id.trans h.id
  subject := h'.subject.trans h.subject
  resourceServerId := h'.resourceServerId.trans h.resourceServerId
  authorizationDetails := h'.authorizationDetails.trans h.authorizationDetails
  scope := h'.scope.trans h.scope
  grantedBy := h'.grantedBy.trans h.grantedBy
  sourceAccessRequestId := h'.sourceAccessRequestId.trans h.sourceAccessRequestId
  connectionId := by
    rcases h'.connectionId with he | hn
    · rw [he]
      exact h.connectionId
    · exact .inr hn
  ended he := h'.ended (h.ended he)

theorem finish (e : ScopeEntitlement) (reason : EndReason) (now : ℕ) :
    e.Persists (e.finish reason now) :=
  ⟨rfl, rfl, rfl, rfl, rfl, rfl, rfl, .inl rfl, fun _ => rfl⟩

theorem agentIdentityId {e f : ScopeEntitlement} (h : e.Persists f) :
    f.agentIdentityId = e.agentIdentityId := by
  simp only [ScopeEntitlement.agentIdentityId, h.subject]

end ScopeEntitlement.Persists

namespace TokenLease.Persists

theorem refl (l : TokenLease) : l.Persists l := ⟨rfl, fun h => h⟩

theorem trans {l m n : TokenLease} (h : l.Persists m) (h' : m.Persists n) : l.Persists n := by
  refine ⟨?_, fun hl => h'.revoked (h.revoked hl)⟩
  rw [h'.columns, h.columns]

theorem revoke (l : TokenLease) (now : ℕ) : l.Persists { l with revokedAt := some now } :=
  ⟨rfl, fun _ => rfl⟩

theorem id {l m : TokenLease} (h : l.Persists m) : m.id = l.id := by rw [h.columns]

theorem entitlementIds {l m : TokenLease} (h : l.Persists m) :
    m.entitlementIds = l.entitlementIds := by rw [h.columns]

theorem requestId {l m : TokenLease} (h : l.Persists m) : m.requestId = l.requestId := by
  rw [h.columns]

theorem expiresAt {l m : TokenLease} (h : l.Persists m) : m.expiresAt = l.expiresAt := by
  rw [h.columns]

theorem tokenHash {l m : TokenLease} (h : l.Persists m) : m.tokenHash = l.tokenHash := by
  rw [h.columns]

end TokenLease.Persists

namespace Store

structure Persists (s t : Store) : Prop where
  now : s.now ≤ t.now
  generated : s.generated ≤ t.generated
  directory : s.directory.Persists t.directory
  requests : Evolves AgentAccessRequest.Persists s.requests t.requests
  entitlements : Evolves ScopeEntitlement.Persists s.entitlements t.entitlements
  leases : Evolves TokenLease.Persists s.leases t.leases
  audits : s.audits <+: t.audits

/-- The unique indexes of the tables of agent access. -/
structure Valid (s : Store) : Prop where
  requests : (s.requests.map (·.id)).Nodup
  entitlements : KeysUnique s.entitlements
  leases : (s.leases.map (·.id)).Nodup
  tokens : (s.leases.map (·.tokenHash)).Nodup

structure Precedes (s t : Store) : Prop where
  persists : s.Persists t
  valid : s.Valid → t.Valid

theorem Persists.refl (s : Store) : s.Persists s :=
  ⟨le_rfl, le_rfl, .refl _, .refl .refl _, .refl .refl _, .refl .refl _, List.prefix_rfl⟩

theorem Persists.trans {s t u : Store} (h : s.Persists t) (h' : t.Persists u) : s.Persists u :=
  ⟨h.now.trans h'.now, h.generated.trans h'.generated, h.directory.trans h'.directory,
    h.requests.trans (fun _ _ _ => .trans) h'.requests,
    h.entitlements.trans (fun _ _ _ => .trans) h'.entitlements,
    h.leases.trans (fun _ _ _ => .trans) h'.leases, h.audits.trans h'.audits⟩

namespace Precedes

theorem refl (s : Store) : s.Precedes s := ⟨.refl s, fun h => h⟩

theorem trans {s t u : Store} (h : s.Precedes t) (h' : t.Precedes u) : s.Precedes u :=
  ⟨h.persists.trans h'.persists, fun hs => h'.valid (h.valid hs)⟩

theorem now (s : Store) (milliseconds : ℕ) :
    s.Precedes { s with now := s.now + milliseconds } :=
  ⟨⟨Nat.le_add_right _ _, le_rfl, .refl _, .refl .refl _, .refl .refl _, .refl .refl _,
    List.prefix_rfl⟩, fun h => ⟨h.1, h.2, h.3, h.4⟩⟩

theorem world (s : Store) (world : World) : s.Precedes { s with world := world } :=
  ⟨⟨le_rfl, le_rfl, .refl _, .refl .refl _, .refl .refl _, .refl .refl _, List.prefix_rfl⟩,
    fun h => ⟨h.1, h.2, h.3, h.4⟩⟩

theorem generated (s : Store) : s.Precedes { s with generated := s.generated + 1 } :=
  ⟨⟨le_rfl, Nat.le_succ _, .refl _, .refl .refl _, .refl .refl _, .refl .refl _, List.prefix_rfl⟩,
    fun h => ⟨h.1, h.2, h.3, h.4⟩⟩

theorem directory {s : Store} {d : Directory} (h : s.directory.Persists d) :
    s.Precedes { s with directory := d } :=
  ⟨⟨le_rfl, le_rfl, h, .refl .refl _, .refl .refl _, .refl .refl _, List.prefix_rfl⟩,
    fun h => ⟨h.1, h.2, h.3, h.4⟩⟩

theorem audit (s : Store) (audit : AuditEvent) :
    s.Precedes { s with audits := s.audits ++ [audit] } :=
  ⟨⟨le_rfl, le_rfl, .refl _, .refl .refl _, .refl .refl _, .refl .refl _, List.prefix_append _ _⟩,
    fun h => ⟨h.1, h.2, h.3, h.4⟩⟩

theorem requests {s : Store} {rows : List AgentAccessRequest}
    (h : Evolves AgentAccessRequest.Persists s.requests rows)
    (hid : (s.requests.map (·.id)).Nodup → (rows.map (·.id)).Nodup) :
    s.Precedes { s with requests := rows } :=
  ⟨⟨le_rfl, le_rfl, .refl _, h, .refl .refl _, .refl .refl _, List.prefix_rfl⟩,
    fun h => ⟨hid h.1, h.2, h.3, h.4⟩⟩

theorem entitlements {s : Store} {rows : List ScopeEntitlement}
    (h : Evolves ScopeEntitlement.Persists s.entitlements rows)
    (hkeys : KeysUnique s.entitlements → KeysUnique rows) :
    s.Precedes { s with entitlements := rows } :=
  ⟨⟨le_rfl, le_rfl, .refl _, .refl .refl _, h, .refl .refl _, List.prefix_rfl⟩,
    fun h => ⟨h.1, hkeys h.2, h.3, h.4⟩⟩

theorem leases {s : Store} {rows : List TokenLease}
    (h : Evolves TokenLease.Persists s.leases rows)
    (hid : (s.leases.map (·.id)).Nodup → (rows.map (·.id)).Nodup)
    (htoken : (s.leases.map (·.tokenHash)).Nodup → (rows.map (·.tokenHash)).Nodup) :
    s.Precedes { s with leases := rows } :=
  ⟨⟨le_rfl, le_rfl, .refl _, .refl .refl _, .refl .refl _, h, List.prefix_rfl⟩,
    fun h => ⟨h.1, h.2, hid h.3, htoken h.4⟩⟩

theorem updateRequests (s : Store) {p : AgentAccessRequest → Bool}
    {f : AgentAccessRequest → AgentAccessRequest}
    (h : ∀ r ∈ s.requests, p r = true → r.Persists (f r)) :
    s.Precedes { s with requests := updateWhere p f s.requests } := by
  refine requests (.updateWhere .refl h) fun hid => ?_
  have hids : (updateWhere p f s.requests).map (·.id) = s.requests.map (·.id) := by
    rw [updateWhere, List.map_map]
    refine List.map_congr_left fun r hr => ?_
    by_cases hp : p r
    · simpa [hp] using (h r hr hp).id
    · simp [hp]
  rwa [hids]

theorem updateLeases (s : Store) (p : TokenLease → Bool) (now : ℕ) :
    s.Precedes { s with
      leases := updateWhere p (fun l => { l with revokedAt := some now }) s.leases } := by
  refine leases (.updateWhere .refl fun l _ _ => .revoke l now) (fun hid => ?_) fun htoken => ?_
  · refine nodup_map_updateWhere ?_ hid
    exact fun _ _ => rfl
  · refine nodup_map_updateWhere ?_ htoken
    exact fun _ _ => rfl

end Precedes

end Store

/-- Ending entitlements frees their keys and takes no other. -/
theorem keysUnique_end {rows : List ScopeEntitlement} (p : ScopeEntitlement → Bool)
    (reason : EndReason) (now : ℕ) (h : KeysUnique rows) :
    KeysUnique (updateWhere p (·.finish reason now) rows) := by
  have hids : ((updateWhere p (·.finish reason now) rows).map (·.id)).Nodup := by
    refine nodup_map_updateWhere ?_ h.1
    exact fun _ _ => rfl
  refine ⟨hids, List.Sublist.nodup ?_ h.2⟩
  clear h hids
  induction rows with
  | nil => exact .slnil
  | cons e rows ih =>
    have hcons : updateWhere p (·.finish reason now) (e :: rows) =
        (if p e then e.finish reason now else e) :: updateWhere p (·.finish reason now) rows := rfl
    rw [hcons, List.filterMap_cons, List.filterMap_cons]
    by_cases hp : p e
    · have hnone : (e.finish reason now).activeKey = none := rfl
      rw [if_pos hp, hnone]
      cases e.activeKey with
      | none => exact ih
      | some key => exact ih.cons key
    · rw [if_neg hp]
      cases e.activeKey with
      | none => exact ih
      | some key => exact ih.cons_cons key

namespace Store.Precedes

theorem endEntitlements (s : Store) (p : ScopeEntitlement → Bool) (reason : EndReason)
    (now : ℕ) : s.Precedes { s with
      entitlements := updateWhere p (·.finish reason now) s.entitlements } :=
  entitlements (.updateWhere .refl fun e _ _ => .finish e reason now) (keysUnique_end p reason now)

end Store.Precedes

theorem AgentAccessRequest.persists_decide {r : AgentAccessRequest} (decision : AccessDecision)
    (h : r.status = .pending) : r.Persists (r.decide decision) := by
  cases decision with
  | denied t =>
    exact ⟨rfl, rfl, rfl, rfl, rfl, .inl h, fun hr => absurd h hr, fun hr => absurd h hr⟩
  | approved d =>
    exact ⟨rfl, rfl, rfl, rfl, rfl, .inl h, fun hr => absurd h hr, fun hr => absurd h hr⟩

theorem keysUnique_set {s : Store} {rows : List ScopeEntitlement} (hkeys : KeysUnique rows)
    (h : Evolves ScopeEntitlement.Persists s.entitlements rows) :
    s.Precedes { s with entitlements := rows } := .entitlements h fun _ => hkeys

namespace Statement

theorem precedes_insertAudit (audit : AuditEvent) (selected : Store → Bool) :
    Batch.Within Store.Precedes (insertAudit audit selected) := by
  refine Batch.Within.modify fun s => ?_
  split
  · exact .audit s audit
  · exact .refl s

theorem precedes_setEntitlements {f : List ScopeEntitlement → List ScopeEntitlement}
    (hf : ∀ rows, Evolves ScopeEntitlement.Persists rows (f rows)) :
    Batch.Within Store.Precedes (setEntitlements f) := by
  intro s x t h
  unfold setEntitlements at h
  by_cases hkeys : KeysUnique (f s.entitlements)
  · rw [if_pos hkeys] at h
    cases h
    exact keysUnique_set hkeys (hf _)
  · rw [if_neg hkeys] at h
    cases h

theorem precedes_insertAccessRequest (input : AgentAccessRequest) :
    Batch.Within Store.Precedes (insertAccessRequest input) := by
  intro s x t h
  unfold insertAccessRequest at h
  split at h
  · cases h
    exact .refl s
  · split at h
    · cases h
    · rename_i hfresh
      cases h
      refine .requests (.append .refl _ _) fun hid => ?_
      refine nodup_map_append_singleton hid fun r hr heq => hfresh ?_
      exact List.any_eq_true.mpr ⟨r, hr, by simp [heq]⟩

theorem precedes_updateAccessRequestDecision (id : Id) (decision : AccessDecision) :
    Batch.Within Store.Precedes (updateAccessRequestDecision id decision) := by
  intro s x t h
  cases h
  refine .updateRequests s fun r _ hr => ?_
  simp only [Bool.and_eq_true, beq_iff_eq] at hr
  exact r.persists_decide decision hr.1.2

theorem precedes_insertEntitlement (requestId : Id) (input : ScopeEntitlement) :
    Batch.Within Store.Precedes (insertEntitlement requestId input) := by
  intro s x t h
  unfold insertEntitlement at h
  split at h
  · rename_i hguard
    cases h
    exact keysUnique_set hguard.2 (.append .refl _ _)
  · cases h
    exact .refl s

theorem precedes_updateEntitlement (update : EntitlementUpdate) :
    Batch.Within Store.Precedes (updateEntitlement update) := by
  refine .bind (fun _ _ _ => .trans) (.read .refl _) fun count => ?_
  refine .bind (fun _ _ _ => .trans) (precedes_setEntitlements fun rows => ?_) fun _ =>
    .pure .refl _
  refine .updateWhere .refl fun e _ _ => ?_
  exact ⟨rfl, rfl, rfl, rfl, rfl, rfl, rfl, .inl rfl, fun h => h⟩

theorem precedes_endEntitlements (selected : ScopeEntitlement → Bool) (reason : EndReason)
    (now : ℕ) : Batch.Within Store.Precedes (endEntitlements selected reason now) :=
  Batch.Within.modify fun s => .endEntitlements s selected reason now

theorem precedes_revokeTokenLeases (selected : TokenLease → Bool) (now : ℕ) :
    Batch.Within Store.Precedes (revokeTokenLeases selected now) :=
  Batch.Within.modify fun s => .updateLeases s selected now

theorem precedes_insertTokenLease (input : TokenLease) (boundary : TokenLeaseBoundary) :
    Batch.Within Store.Precedes (insertTokenLease input boundary) := by
  intro s x t h
  unfold insertTokenLease at h
  split at h
  · split at h
    · cases h
    · rename_i hfresh
      cases h
      have hnew : ∀ l ∈ s.leases, l.id ≠ input.id ∧ l.tokenHash ≠ input.tokenHash := by
        intro l hl
        refine ⟨fun heq => hfresh ?_, fun heq => hfresh ?_⟩ <;>
          exact List.any_eq_true.mpr ⟨l, hl, by simp [heq]⟩
      refine .leases (.append .refl _ _) (fun hid => ?_) fun htoken => ?_
      · exact nodup_map_append_singleton hid fun l hl => (hnew l hl).1
      · exact nodup_map_append_singleton htoken fun l hl => (hnew l hl).2
  · cases h
    exact .refl s

theorem precedes_consumeAccessRequest (requestId leaseId : Id) :
    Batch.Within Store.Precedes (consumeAccessRequest requestId leaseId) := by
  refine Batch.Within.modify fun s => ?_
  split
  · refine .updateRequests s fun r _ hr => ?_
    simp only [Bool.and_eq_true, beq_iff_eq] at hr
    exact ⟨rfl, rfl, rfl, rfl, rfl, .inr (.inr ⟨hr.2, rfl⟩), fun _ => rfl, fun _ => .inl rfl⟩
  · exact .refl s

theorem precedes_consumeEntitlements (ids : List Id) (leaseId : Id) (now : ℕ) :
    Batch.Within Store.Precedes (consumeEntitlements ids leaseId now) := by
  refine Batch.Within.modify fun s => ?_
  split
  · exact .endEntitlements s _ .consumed now
  · exact .refl s

end Statement

namespace Repository

variable {α β : Type}

theorem precedes_bind {b : StoreBatch α} {f : α → StoreBatch β}
    (hb : Batch.Within Store.Precedes b) (hf : ∀ x, Batch.Within Store.Precedes (f x)) :
    Batch.Within Store.Precedes (b >>= f) := hb.bind (fun _ _ _ => .trans) hf

theorem precedes_pure (x : α) : Batch.Within Store.Precedes (pure x : StoreBatch α) := .pure .refl x

theorem precedes_read (f : Store → α) : Batch.Within Store.Precedes (Batch.read f : StoreBatch α) :=
  .read .refl f

theorem precedes_all {bs : List (StoreBatch α)} (h : ∀ b ∈ bs, Batch.Within Store.Precedes b) :
    Batch.Within Store.Precedes (Batch.all bs) := .all .refl (fun _ _ _ => .trans) h

theorem precedes_approveAccessRequestWithEntitlements (a : Approval) :
    Batch.Within Store.Precedes (approveAccessRequestWithEntitlements a) := by
  refine precedes_bind (precedes_all fun b hb => ?_) fun inserted => ?_
  · obtain ⟨input, _, rfl⟩ := List.mem_map.mp hb
    exact precedes_insertEntitlement a.requestId input
  refine precedes_bind (precedes_all fun b hb => ?_) fun updated => ?_
  · obtain ⟨update, _, rfl⟩ := List.mem_map.mp hb
    exact precedes_updateEntitlement update
  refine precedes_bind (precedes_updateAccessRequestDecision _ _) fun request => ?_
  refine precedes_bind (precedes_insertAudit _ _) fun _ => ?_
  split
  · exact precedes_pure _
  · split
    · exact precedes_pure _
    · cases request <;> exact precedes_pure _

theorem precedes_endEntitlement (id : Id) (reason : EndReason) (now : ℕ) :
    Batch.Within Store.Precedes (endEntitlement id reason now) :=
  precedes_bind (precedes_read _) fun _ =>
    precedes_bind (precedes_endEntitlements _ reason now) fun _ => precedes_pure _

theorem precedes_decideAccessRequestWithAudit (id : Id) (decision : AccessDecision)
    (audit : AuditEvent) :
    Batch.Within Store.Precedes (decideAccessRequestWithAudit id decision audit) :=
  precedes_bind (precedes_insertAudit _ _) fun _ => precedes_updateAccessRequestDecision id decision

theorem precedes_endEntitlementWithAudit (id : Id) (reason : EndReason) (tokenLeaseIds : List Id)
    (now : ℕ) (audit : AuditEvent) :
    Batch.Within Store.Precedes (endEntitlementWithAudit id reason tokenLeaseIds now audit) :=
  precedes_bind (precedes_insertAudit _ _) fun _ =>
    precedes_bind (precedes_endEntitlement id reason now) fun found =>
      precedes_bind (precedes_revokeTokenLeases _ _) fun _ => precedes_pure found

theorem precedes_issueTokenLeaseWithAudit (i : Issuance) :
    Batch.Within Store.Precedes (issueTokenLeaseWithAudit i) := by
  refine precedes_bind (precedes_insertTokenLease i.lease i.boundary) fun lease => ?_
  refine precedes_bind (precedes_consumeAccessRequest _ _) fun _ => ?_
  refine precedes_bind (precedes_consumeEntitlements _ _ _) fun _ => ?_
  exact precedes_bind (precedes_insertAudit _ _) fun _ => precedes_pure lease

theorem precedes_insertScopeEntitlement (input : ScopeEntitlement) :
    Batch.Within Store.Precedes (insertScopeEntitlement input) := by
  intro s x t h
  unfold insertScopeEntitlement at h
  split at h
  · rename_i hkeys
    cases h
    exact keysUnique_set hkeys (.append .refl _ _)
  · cases h
    exact .refl s

theorem precedes_strengthenEntitlement (id : Id) (lifetime : Option Lifetime)
    (hash : Digest String) :
    Batch.Within Store.Precedes (strengthenEntitlement id lifetime hash) := by
  refine precedes_bind (precedes_setEntitlements fun rows => ?_) fun _ => precedes_read _
  refine .updateWhere .refl fun e _ _ => ?_
  exact ⟨rfl, rfl, rfl, rfl, rfl, rfl, rfl, .inl rfl, fun h => h⟩

theorem precedes_revokeConnection (id : Id) (now : ℕ) :
    Batch.Within Store.Precedes (revokeConnection id now) :=
  Batch.Within.modify fun _ => .directory
    ⟨.refl .refl _, .updateWhere .refl fun _ _ _ => ⟨rfl, rfl, rfl⟩, .refl .refl _, .refl .refl _⟩

theorem precedes_revokeProviderConnection (id ownerUserId : Id) (accountId : Option Id) :
    Batch.Within Store.Precedes (revokeProviderConnection id ownerUserId accountId) :=
  Batch.Within.modify fun _ => .directory (.of_eq rfl rfl rfl rfl)

theorem precedes_revokeResourceAuthorizations (ids : List Id) (now : ℕ) :
    Batch.Within Store.Precedes (revokeResourceAuthorizations ids now) := by
  refine precedes_bind (.modify fun s => .updateRequests s fun r _ _ => ?_) fun _ => ?_
  · exact ⟨rfl, rfl, rfl, rfl, rfl, .inr (.inl rfl), fun _ => rfl, fun _ => .inr rfl⟩
  refine precedes_bind (precedes_setEntitlements fun rows => ?_) fun _ => ?_
  · refine .updateWhere .refl fun e _ _ => ?_
    exact ⟨rfl, rfl, rfl, rfl, rfl, rfl, rfl, .inr rfl, fun h => h⟩
  · exact .modify fun _ => .directory
      ⟨.refl .refl _, .updateWhere .refl fun _ _ _ => ⟨rfl, rfl, rfl⟩, .refl .refl _,
        .refl .refl _⟩

theorem precedes_deleteResource (id : Id) (now : ℕ) (audit : AuditEvent) :
    Batch.Within Store.Precedes (deleteResource id now audit) := by
  refine precedes_bind (precedes_insertAudit _ _) fun _ => ?_
  refine precedes_bind (.modify fun s => .directory ?_) fun _ => ?_
  · refine ⟨.updateWhere .refl ?_, .updateWhere .refl ?_, .refl .refl _, .refl .refl _⟩
    · exact fun _ _ _ => ⟨rfl, rfl, rfl, fun _ => rfl⟩
    · exact fun _ _ _ => ⟨rfl, rfl, rfl⟩
  refine precedes_bind (.modify fun s => .updateRequests s fun r _ hr => ?_) fun _ => ?_
  · simp only [Bool.and_eq_true, beq_iff_eq] at hr
    exact ⟨rfl, rfl, rfl, rfl, rfl, .inl hr.2, fun _ => rfl, fun _ => .inl rfl⟩
  refine precedes_bind (precedes_endEntitlements _ _ _) fun _ => ?_
  exact precedes_bind (precedes_read _) fun _ => precedes_revokeTokenLeases _ _

end Repository

open Repository in
/-- No operation deletes a row, undoes a decision or an end, or breaks an index. -/
theorem precedes_perform (op : Operation) (s : Store) : s.Precedes (op.perform s) := by
  have hsettle : ∀ {α : Type} {b : StoreBatch α}, Batch.Within Store.Precedes b →
      s.Precedes (b.settle s) := fun h => h.settle .refl s
  cases op with
  | read q => exact .refl s
  | generateId => exact .generated s
  | elapse milliseconds => exact .now s milliseconds
  | outside world => exact .world s world
  | administer change => exact .directory (s.directory.persists_change change)
  | createAccessRequest input audit =>
    exact hsettle (precedes_bind (precedes_insertAccessRequest input) fun _ =>
      precedes_bind (precedes_insertAudit _ _) fun _ => precedes_pure _)
  | decideAccessRequest id decision audit =>
    exact hsettle (precedes_decideAccessRequestWithAudit id decision audit)
  | approve a => exact hsettle (precedes_approveAccessRequestWithEntitlements a)
  | endEntitlement id reason now => exact hsettle (precedes_endEntitlement id reason now)
  | endEntitlementWithAudit id reason ids now audit =>
    exact hsettle (precedes_endEntitlementWithAudit id reason ids now audit)
  | endEntitlementsById ids now => exact hsettle (precedes_endEntitlements _ _ _)
  | issueTokenLease i => exact hsettle (precedes_issueTokenLeaseWithAudit i)
  | revokeTokenLease id now => exact hsettle (precedes_revokeTokenLeases _ _)
  | insertScopeEntitlement input => exact hsettle (precedes_insertScopeEntitlement input)
  | replaceExpiredEntitlement id input now =>
    exact hsettle (precedes_bind (precedes_endEntitlements _ _ _) fun _ =>
      precedes_setEntitlements fun rows => .append .refl rows _)
  | strengthenEntitlement id lifetime hash =>
    exact hsettle (precedes_strengthenEntitlement id lifetime hash)
  | revokeConnection id now => exact hsettle (precedes_revokeConnection id now)
  | revokeProviderConnection id owner account =>
    exact hsettle (precedes_revokeProviderConnection id owner account)
  | revokeResourceAuthorizations ids now =>
    exact hsettle (precedes_revokeResourceAuthorizations ids now)
  | deleteResource id now audit => exact hsettle (precedes_deleteResource id now audit)

/-- The history of a store, as the pools of procedures see it. -/
theorem persists_evolution : Evolution Operation Store.Persists :=
  ⟨.refl, fun _ _ _ => .trans, fun op s => (precedes_perform op s).persists⟩

namespace Store

/-- No agent access yet, whatever the directory holds. -/
structure Fresh (s : Store) : Prop where
  requests : s.requests = []
  entitlements : s.entitlements = []
  leases : s.leases = []
  audits : s.audits = []

theorem Fresh.valid {s : Store} (h : s.Fresh) : s.Valid := by
  constructor <;> simp [h.requests, h.entitlements, h.leases, KeysUnique]

end Store

end FlareAuth
