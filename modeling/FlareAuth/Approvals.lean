import FlareAuth.OneTimeEntitlements
import Mathlib.Data.List.ReduceOption

/-!
# Approvals

The batch of an approval inserts entitlements, updates others and decides the
request. A statement that selects no row does not undo the others, so the batch
is all or nothing only in the stores where either everything lands or nothing
would change.
-/

namespace FlareAuth

open Concurrent Procedure Relational Repository Statement

theorem KeysUnique.sublist {rows rows' : List ScopeEntitlement} (h : KeysUnique rows)
    (hsub : rows'.Sublist rows) : KeysUnique rows' :=
  ⟨h.1.sublist (hsub.map _), h.2.sublist (hsub.filterMap _)⟩

/-- The same grant, whatever its lifetime and the hash of its Context. -/
def ScopeEntitlement.SameGrant (e f : ScopeEntitlement) : Prop :=
  f = { e with lifetime := f.lifetime, authorizationContextHash := f.authorizationContextHash }

theorem ScopeEntitlement.SameGrant.refl (e : ScopeEntitlement) : e.SameGrant e := rfl

theorem ScopeEntitlement.SameGrant.trans {e f g : ScopeEntitlement} (h : e.SameGrant f)
    (h' : f.SameGrant g) : e.SameGrant g := by
  rw [SameGrant] at h h' ⊢
  rw [h', h]

/-- A store in which only lifetimes and hashes of entitlements differ. -/
def Store.Regranted (s t : Store) : Prop :=
  ∃ rows, t = { s with entitlements := rows } ∧
    Evolves ScopeEntitlement.SameGrant s.entitlements rows

theorem Store.Regranted.refl (s : Store) : s.Regranted s :=
  ⟨s.entitlements, rfl, .refl .refl _⟩

theorem Store.Regranted.trans {s t u : Store} (h : s.Regranted t) (h' : t.Regranted u) :
    s.Regranted u := by
  obtain ⟨rows, rfl, hrows⟩ := h
  obtain ⟨rows', rfl, hrows'⟩ := h'
  exact ⟨rows', rfl, hrows.trans (fun _ _ _ => .trans) hrows'⟩

theorem regranted_updateEntitlement (update : EntitlementUpdate) :
    Batch.Within Store.Regranted (updateEntitlement update) := by
  have htrans : ∀ s t u : Store, s.Regranted t → t.Regranted u → s.Regranted u :=
    fun _ _ _ => .trans
  refine .bind htrans (.read .refl _) fun count => .bind htrans ?_ fun _ => .pure .refl _
  intro s x t h
  unfold setEntitlements at h
  split at h
  · cases h
    refine ⟨_, rfl, .updateWhere .refl fun e _ _ => ?_⟩
    exact rfl
  · cases h

/-- A decision does not depend on lifetimes and hashes. -/
theorem decisionHolds_of_regranted {s t : Store} (h : s.Regranted t) {r : AgentAccessRequest}
    {decision : AccessDecision} (hholds : s.decisionHolds r decision = true) :
    t.decisionHolds r decision = true := by
  obtain ⟨rows, rfl, hrows⟩ := h
  cases decision with
  | denied decidedAt => rfl
  | approved d =>
    simp only [Store.decisionHolds, Bool.and_eq_true, List.all_eq_true] at hholds ⊢
    refine ⟨hholds.1, fun approved happroved => ?_⟩
    have hold := hholds.2 approved happroved
    cases hfound : s.findEntitlement approved.entitlementId with
    | none => simp [Store.approvedEntitlementHolds, hfound] at hold
    | some e =>
      have hids : ∀ e f : ScopeEntitlement, e.SameGrant f → f.id = e.id :=
        fun e f hsame => by rw [hsame]
      obtain ⟨f, hf, hsame⟩ := hrows.lookup hids hfound
      have hlater : ({ s with entitlements := rows } : Store).findEntitlement
          approved.entitlementId = some f := hf
      rw [Store.approvedEntitlementHolds, hfound] at hold
      rw [Store.approvedEntitlementHolds, hlater, hsame]
      exact hold

namespace Approval

def rows (a : Approval) : List ScopeEntitlement := a.entitlements.map (·.grantedUnder a.requestId)

structure Lands (a : Approval) (s : Store) : Prop where
  inserts : ∀ e ∈ a.entitlements, s.entitlementInsertable e a.requestId = true
  keys : KeysUnique (s.entitlements ++ a.rows)
  decision : ∃ r, s.findAccessRequest a.requestId = some r ∧ r.status = .pending ∧
    ({ s with entitlements := s.entitlements ++ a.rows } : Store).decisionHolds r
      (.approved a.decision) = true

/-- No insert selects a row, and no update does: one that did would set the time of its last update,
if nothing else. -/
structure Idle (a : Approval) (s : Store) : Prop where
  inserts : ∀ e ∈ a.entitlements, ¬(s.entitlementInsertable e a.requestId = true ∧
    KeysUnique (s.entitlements ++ [e.grantedUnder a.requestId]))
  updates : ∀ u ∈ a.updates, ∀ e ∈ s.entitlements, e.id = u.id → e.ended ≠ none

/-- A unique index refuses one of the updates, after the inserts. -/
def Refused (a : Approval) (s : Store) : Prop :=
  ∃ inserted t e, Batch.all (a.entitlements.map (insertEntitlement a.requestId)) s =
    .ok (inserted, t) ∧ Batch.all (a.updates.map updateEntitlement) t = .error e

/-- All or nothing. -/
def Whole (a : Approval) (s : Store) : Prop := a.Lands s ∨ a.Idle s ∨ a.Refused s

end Approval

section Batch

variable {a : Approval} {s : Store}

theorem insertAll_of_lands {es : List ScopeEntitlement} {requestId : Id}
    (hinserts : ∀ e ∈ es, s.entitlementInsertable e requestId = true)
    (hkeys : KeysUnique (s.entitlements ++ es.map (·.grantedUnder requestId))) :
    Batch.all (es.map (insertEntitlement requestId)) s =
      .ok (es.map fun e => some (e.grantedUnder requestId),
        { s with entitlements := s.entitlements ++ es.map (·.grantedUnder requestId) }) := by
  induction es generalizing s with
  | nil => simp [Batch.all, Batch.pure_apply]
  | cons e es ih =>
    have hfirst : KeysUnique (s.entitlements ++ [e.grantedUnder requestId]) := by
      refine hkeys.sublist (List.Sublist.append_left ?_ _)
      exact (List.nil_sublist _).cons_cons _
    have hinsert : insertEntitlement requestId e s = .ok (some (e.grantedUnder requestId),
        { s with entitlements := s.entitlements ++ [e.grantedUnder requestId] }) := by
      unfold insertEntitlement
      rw [if_pos ⟨hinserts e List.mem_cons_self, hfirst⟩]
    have hrest := ih (s := { s with entitlements := s.entitlements ++ [e.grantedUnder requestId] })
      (fun f hf => hinserts f (List.mem_cons_of_mem _ hf))
      (by simpa only [List.map_cons, List.append_assoc, List.singleton_append] using hkeys)
    rw [List.map_cons, Batch.all, Batch.bind_of_ok hinsert, Batch.bind_of_ok hrest]
    simp [Batch.pure_apply]

theorem insertAll_of_idle {es : List ScopeEntitlement} {requestId : Id}
    (hinserts : ∀ e ∈ es, ¬(s.entitlementInsertable e requestId = true ∧
      KeysUnique (s.entitlements ++ [e.grantedUnder requestId]))) :
    Batch.all (es.map (insertEntitlement requestId)) s = .ok (es.map fun _ => none, s) := by
  induction es with
  | nil => rfl
  | cons e es ih =>
    have hinsert : insertEntitlement requestId e s = .ok (none, s) := by
      unfold insertEntitlement
      rw [if_neg (hinserts e List.mem_cons_self)]
    have hrest := ih fun f hf => hinserts f (List.mem_cons_of_mem _ hf)
    rw [List.map_cons, Batch.all, Batch.bind_of_ok hinsert, Batch.bind_of_ok hrest]
    rfl

/-- Updates that select no row leave the store as it is, or fail. -/
theorem updateAll_of_idle {us : List EntitlementUpdate}
    (hupdates : ∀ u ∈ us, ∀ e ∈ s.entitlements, e.id = u.id → e.ended ≠ none) :
    (∃ e, Batch.all (us.map updateEntitlement) s = .error e) ∨
      ∃ counts, Batch.all (us.map updateEntitlement) s = .ok (counts, s) := by
  induction us with
  | nil => exact .inr ⟨[], rfl⟩
  | cons u us ih =>
    have hsame : updateWhere (fun e => e.id == u.id && e.ended.isNone) (fun e =>
        { e with
          lifetime := u.lifetime
          authorizationContextHash := u.authorizationContextHash }) s.entitlements =
        s.entitlements := by
      refine updateWhere_eq_self fun e he hp => ?_
      rw [Bool.and_eq_true, beq_iff_eq, Option.isNone_iff_eq_none] at hp
      exact absurd hp.2 (hupdates u List.mem_cons_self e he hp.1)
    by_cases hkeys : KeysUnique s.entitlements
    · have hupdate : updateEntitlement u s =
          .ok (s.entitlements.countP (fun e => e.id == u.id && e.ended.isNone), s) := by
        simp only [updateEntitlement, setEntitlements, Batch.read, bind, pure, hsame, if_pos hkeys]
      rw [List.map_cons, Batch.all, Batch.bind_of_ok hupdate]
      rcases ih fun v hv => hupdates v (List.mem_cons_of_mem _ hv) with ⟨e, he⟩ | ⟨counts, hcounts⟩
      · exact .inl ⟨e, Batch.bind_of_error he⟩
      · exact .inr ⟨_, Batch.bind_of_ok hcounts⟩
    · have hupdate : updateEntitlement u s = .error uniqueViolation := by
        simp only [updateEntitlement, setEntitlements, Batch.read, bind, hsame, if_neg hkeys]
      rw [List.map_cons, Batch.all]
      exact .inl ⟨_, Batch.bind_of_error hupdate⟩

def decideApproved (a : Approval) (inserted : List (Option ScopeEntitlement))
    (updated : List ℕ) : StoreBatch ApprovalResult := do
  let request ← updateAccessRequestDecision a.requestId (.approved a.decision)
  insertAudit a.audit fun s =>
    (s.findAccessRequest a.requestId).any fun r => r.status == .approved
  if inserted.reduceOption.length ≠ a.entitlements.length then return .entitlementsChanged
  else if updated.any (· ≠ 1) then return .resourceUnavailable
  else
    match request with
    | none => return .requestChanged
    | some r => return .approved inserted.reduceOption r

theorem approve_eq (a : Approval) : approveAccessRequestWithEntitlements a =
    Batch.all (a.entitlements.map (insertEntitlement a.requestId)) >>= fun inserted =>
      Batch.all (a.updates.map updateEntitlement) >>= decideApproved a inserted := rfl

/-- What the decision leaves: the requests it decided, with an audit. -/
theorem decideApproved_ok (a : Approval) (inserted : List (Option ScopeEntitlement))
    (updated : List ℕ) (s : Store) : ∃ result audits,
    decideApproved a inserted updated s = .ok (result, { s with
      requests := updateWhere (fun q => q.id == a.requestId && q.status == .pending &&
        s.decisionHolds q (.approved a.decision)) (·.decide (.approved a.decision)) s.requests
      audits := audits }) := by
  have haudit : ∀ (u : Store), ∃ audits, insertAudit a.audit
      (fun s => (s.findAccessRequest a.requestId).any fun r => r.status == .approved) u =
        .ok ((), { u with audits := audits }) := by
    intro u
    unfold insertAudit Batch.modify
    dsimp only
    split
    · exact ⟨_, rfl⟩
    · exact ⟨u.audits, rfl⟩
  obtain ⟨audits, haudits⟩ := haudit { s with
    requests := updateWhere (fun q => q.id == a.requestId && q.status == .pending &&
      s.decisionHolds q (.approved a.decision)) (·.decide (.approved a.decision)) s.requests }
  unfold decideApproved
  rw [Batch.bind_of_ok (show updateAccessRequestDecision a.requestId (.approved a.decision) s =
    .ok (_, _) from rfl), Batch.bind_of_ok haudits]
  split
  · exact ⟨_, audits, rfl⟩
  · split
    · exact ⟨_, audits, rfl⟩
    · generalize Option.map _ (List.find? _ s.requests) = request
      cases request <;> exact ⟨_, audits, rfl⟩

theorem settle_of_idle (h : a.Idle s) :
    ((approveAccessRequestWithEntitlements a).settle s).entitlements = s.entitlements := by
  have hinserts := insertAll_of_idle h.inserts
  rcases updateAll_of_idle h.updates with ⟨e, he⟩ | ⟨counts, hcounts⟩
  · rw [approve_eq, Batch.settle_of_error ((Batch.bind_of_ok hinserts).trans
      (Batch.bind_of_error he))]
  · obtain ⟨result, audits, hok⟩ := decideApproved_ok a (a.entitlements.map fun _ => none) counts s
    rw [approve_eq, Batch.settle_of_ok ((Batch.bind_of_ok hinserts).trans
      ((Batch.bind_of_ok hcounts).trans hok))]

theorem settle_of_refused (h : a.Refused s) :
    (approveAccessRequestWithEntitlements a).settle s = s := by
  obtain ⟨inserted, t, e, hinserts, hupdates⟩ := h
  rw [approve_eq, Batch.settle_of_error ((Batch.bind_of_ok hinserts).trans
    (Batch.bind_of_error hupdates))]

/-- A decision that holds for a pending request approves it. -/
theorem findAccessRequest_decided {r : AgentAccessRequest}
    (hfound : s.findAccessRequest a.requestId = some r) (hpending : r.status = .pending)
    (hholds : s.decisionHolds r (.approved a.decision) = true) :
    ∃ q, lookup AgentAccessRequest.id a.requestId
      (updateWhere (fun q => q.id == a.requestId && q.status == .pending &&
        s.decisionHolds q (.approved a.decision)) (·.decide (.approved a.decision)) s.requests) =
        some q ∧ q.status = .approved := by
  have hlookup := lookup_updateWhere AgentAccessRequest.id
    (p := fun q => q.id == a.requestId && q.status == .pending &&
      s.decisionHolds q (.approved a.decision))
    (f := (·.decide (.approved a.decision))) (fun _ => rfl) hfound
  have hid : r.id = a.requestId := key_of_lookup hfound
  rw [if_pos (by simp [hid, hpending, hholds])] at hlookup
  exact ⟨_, hlookup, rfl⟩

theorem decideApproved_entitlementsChanged {inserted : List (Option ScopeEntitlement)}
    {updated : List ℕ} {t : Store}
    (h : decideApproved a inserted updated s = .ok (.entitlementsChanged, t)) :
    inserted.reduceOption.length ≠ a.entitlements.length := by
  obtain ⟨request, s₁, -, h⟩ := Batch.bind_eq_ok.mp h
  obtain ⟨_, s₂, -, h⟩ := Batch.bind_eq_ok.mp h
  split at h
  · assumption
  · split at h
    · cases h
    · cases request <;> cases h

/-- When everything lands and no index refuses an update, the approval approves its request. -/
theorem approve_of_lands (h : a.Lands s) {counts : List ℕ} {t : Store}
    (hupdates : Batch.all (a.updates.map updateEntitlement)
      { s with entitlements := s.entitlements ++ a.rows } = .ok (counts, t)) :
    ∃ result u, approveAccessRequestWithEntitlements a s = .ok (result, u) ∧
      result ≠ .entitlementsChanged ∧ u.entitlements = t.entitlements ∧
      ∃ q, u.findAccessRequest a.requestId = some q ∧ q.status = .approved := by
  have hinserts := insertAll_of_lands h.inserts h.keys
  obtain ⟨result, audits, hok⟩ :=
    decideApproved_ok a (a.entitlements.map fun e => some (e.grantedUnder a.requestId)) counts t
  have hregranted : Batch.Within Store.Regranted (Batch.all (a.updates.map updateEntitlement)) := by
    refine .all .refl (fun _ _ _ => .trans) fun b hb => ?_
    obtain ⟨update, _, rfl⟩ := List.mem_map.mp hb
    exact regranted_updateEntitlement update
  have ht := hregranted _ _ _ hupdates
  obtain ⟨r, hfound, hpending, hholds⟩ := h.decision
  have hfound' : t.findAccessRequest a.requestId = some r := by
    obtain ⟨rows, rfl, _⟩ := ht
    exact hfound
  have happroved := findAccessRequest_decided hfound' hpending
    (decisionHolds_of_regranted ht hholds)
  have hbatch := (congrFun (approve_eq a) s).trans
    ((Batch.bind_of_ok hinserts).trans ((Batch.bind_of_ok hupdates).trans hok))
  refine ⟨result, _, hbatch, ?_, rfl, happroved⟩
  rintro rfl
  refine decideApproved_entitlementsChanged hok ?_
  simp [List.reduceOption, List.filterMap_map]

/-- When everything lands, the approval approves its request, unless an index refuses it. -/
theorem settle_of_lands (h : a.Lands s) :
    (approveAccessRequestWithEntitlements a).settle s = s ∨
      ∃ q, ((approveAccessRequestWithEntitlements a).settle s).findAccessRequest a.requestId =
        some q ∧ q.status = .approved := by
  cases hupdates : Batch.all (a.updates.map updateEntitlement)
      { s with entitlements := s.entitlements ++ a.rows } with
  | error e =>
    left
    rw [approve_eq, Batch.settle_of_error ((Batch.bind_of_ok (insertAll_of_lands h.inserts
      h.keys)).trans (Batch.bind_of_error hupdates))]
  | ok updated =>
    right
    obtain ⟨result, u, hok, -, -, happroved⟩ := approve_of_lands h hupdates
    rw [Batch.settle_of_ok hok]
    exact happroved

end Batch

/-- Each entitlement of the second store was in the first, or was granted under the request. -/
def GrantedUnder (requestId : Id) (s t : Store) : Prop :=
  ∀ e ∈ t.entitlements, (∃ e₀ ∈ s.entitlements, e₀.Persists e) ∨
    e.sourceAccessRequestId = some requestId

theorem GrantedUnder.of_persists {requestId : Id} {s t : Store} (h : s.Persists t)
    (hsame : s.SameEntitlements t) : GrantedUnder requestId s t :=
  fun _ he => .inl (h.entitlements.exists_of_mem_later hsame he)

theorem GrantedUnder.trans {requestId : Id} {s t u : Store} (h : GrantedUnder requestId s t)
    (h' : GrantedUnder requestId t u) : GrantedUnder requestId s u := by
  intro e he
  rcases h' e he with ⟨e₁, he₁, hpersists⟩ | hsource
  · rcases h e₁ he₁ with ⟨e₀, he₀, hpersists₀⟩ | hsource
    · exact .inl ⟨e₀, he₀, hpersists₀.trans hpersists⟩
    · exact .inr (hpersists.sourceAccessRequestId.trans hsource)
  · exact .inr hsource

theorem grantedUnder_insertEntitlement (requestId : Id) (input : ScopeEntitlement) :
    Batch.Within (GrantedUnder requestId) (insertEntitlement requestId input) := by
  intro s x t hs e he
  unfold insertEntitlement at hs
  split at hs
  · cases hs
    rcases List.mem_append.mp he with he | he
    · exact .inl ⟨e, he, .refl e⟩
    · obtain rfl := List.mem_singleton.mp he
      exact .inr rfl
  · cases hs
    exact .inl ⟨e, he, .refl e⟩

/-- An approval grants nothing but under its own request. -/
theorem grantedUnder_approve (a : Approval) :
    Batch.Within (GrantedUnder a.requestId) (approveAccessRequestWithEntitlements a) := by
  have hrefl : ∀ s, GrantedUnder a.requestId s s := fun s e he => .inl ⟨e, he, .refl e⟩
  have htrans : ∀ s t u, GrantedUnder a.requestId s t → GrantedUnder a.requestId t u →
      GrantedUnder a.requestId s u := fun _ _ _ => .trans
  have hkeep : ∀ {γ : Type} {b : StoreBatch γ}, Batch.Within Store.Precedes b →
      Batch.Within Store.SameRows b → Batch.Within (GrantedUnder a.requestId) b :=
    fun hp hs s x t h => .of_persists (hp s x t h).persists (hs s x t h).entitlements
  rw [approve_eq]
  refine .bind htrans (.all hrefl htrans fun b hb => ?_) fun inserted => ?_
  · obtain ⟨input, _, rfl⟩ := List.mem_map.mp hb
    exact grantedUnder_insertEntitlement a.requestId input
  refine .bind htrans (.all hrefl htrans fun b hb => ?_) fun updated s x t h => ?_
  · obtain ⟨update, _, rfl⟩ := List.mem_map.mp hb
    exact hkeep (precedes_updateEntitlement update) (sameRows_updateEntitlement update)
  · obtain ⟨result, audits, hok⟩ := decideApproved_ok a inserted updated s
    rw [hok] at h
    cases h
    exact fun e he => .inl ⟨e, he, .refl e⟩

/-- An entitlement that is there after an operation was there before, or the operation granted
it: an approval under its request, or a grant as it was given. -/
theorem mem_entitlements_perform {op : Operation} {s : Store} {e : ScopeEntitlement}
    (h : e ∈ (op.perform s).entitlements) :
    (∃ e₀ ∈ s.entitlements, e₀.Persists e) ∨
      (∃ a, op = .approve a ∧ e.sourceAccessRequestId = some a.requestId) ∨
      op = .insertScopeEntitlement e ∨ ∃ id now, op = .replaceExpiredEntitlement id e now := by
  have hold : ∀ {e : ScopeEntitlement}, e ∈ s.entitlements → ∃ e₀ ∈ s.entitlements, e₀.Persists e :=
    fun he => ⟨_, he, .refl _⟩
  by_cases hgrants : op.Grants
  · cases op with
    | approve a =>
      have hwithin := (grantedUnder_approve a).settle (fun s e he => .inl ⟨e, he, .refl e⟩) s
      exact (hwithin e h).imp_right fun hsource => .inl ⟨a, rfl, hsource⟩
    | insertScopeEntitlement input =>
      rw [Operation.perform, Batch.settle, insertScopeEntitlement] at h
      split at h
      · rename_i heq
        split at heq
        · cases heq
          rcases List.mem_append.mp h with h | h
          · exact .inl (hold h)
          · obtain rfl := List.mem_singleton.mp h
            exact .inr (.inr (.inl rfl))
        · cases heq
          exact .inl (hold h)
      · exact .inl (hold h)
    | replaceExpiredEntitlement id input now =>
      rw [Operation.perform, Batch.settle] at h
      split at h
      · rename_i heq
        obtain ⟨_, t, hended, hset⟩ := Batch.bind_eq_ok.mp heq
        cases hended
        unfold setEntitlements at hset
        split at hset
        · cases hset
          rcases List.mem_append.mp h with h | h
          · obtain ⟨e₀, he₀, rfl⟩ := mem_updateWhere.mp h
            refine .inl ⟨e₀, he₀, ?_⟩
            split
            · exact .finish e₀ .expired now
            · exact .refl e₀
          · obtain rfl := List.mem_singleton.mp h
            exact .inr (.inr (.inr ⟨id, now, rfl⟩))
        · cases hset
      · exact .inl (hold h)
    | _ => exact hgrants.elim
  · have hevolves := (precedes_perform op s).persists.entitlements
    exact .inl (hevolves.exists_of_mem_later (sameEntitlements_perform hgrants s) h)

def Approves (e : Event Store Operation) (a : Approval) : Prop :=
  (∃ q, e.before.findAccessRequest a.requestId = some q ∧ q.status = .pending) ∧
    ∃ q, (apply e.operation e.before).findAccessRequest a.requestId = some q ∧ q.status = .approved

/-- A whole approval approves its request or changes no entitlement. -/
theorem approves_of_whole {a : Approval} {s : Store} (h : a.Whole s) :
    Approves ⟨.approve a, s⟩ a ∨
      (apply (Operation.approve a) s).entitlements = s.entitlements := by
  simp only [Approves, apply_eq, Operation.perform]
  rcases h with hlands | hidle | hrefused
  · rcases settle_of_lands hlands with hsame | happroved
    · exact .inr (by rw [hsame])
    · obtain ⟨r, hfound, hpending, _⟩ := hlands.decision
      exact .inl ⟨⟨r, hfound, hpending⟩, happroved⟩
  · exact .inr (settle_of_idle hidle)
  · exact .inr (by rw [settle_of_refused hrefused])

/-- A request that was granted, whether or not its token has been taken. -/
def Store.Granted (s : Store) (requestId : Id) : Prop :=
  ∃ q, s.findAccessRequest requestId = some q ∧ (q.status = .approved ∨ q.status = .consumed)

theorem granted_of_persists {s t : Store} (h : s.Persists t) {requestId : Id}
    (hgranted : s.Granted requestId) : t.Granted requestId := by
  obtain ⟨q, hq, hstatus⟩ := hgranted
  obtain ⟨q', hq', hpersists⟩ := h.requests.lookup (fun _ _ hp => hp.id) hq
  refine ⟨q', hq', ?_⟩
  rcases hpersists.status with hs | hs | ⟨_, hs⟩
  · rcases hstatus with hs' | hs' <;> simp [hs] at hs'
  · rwa [hs]
  · exact .inr hs

section Runs

variable [Locale]

def WholeApprovals (pool : AccessPool) (m : Move Call) : Prop :=
  ∀ i t a, m = .resume i → pool.pending i = some (t, .approve a) → a.Whole pool.store

/-- Approval is atomic in every run whose approvals are all or nothing. -/
theorem approvals_atomic {pool : AccessPool}
    (h : Reachable Call.program Store.Fresh WholeApprovals pool) :
    (∀ t ∈ pool.threads, ∀ e ∈ t.log, ∀ a, e.operation = .approve a →
      Approves e a ∨ (apply e.operation e.before).entitlements = e.before.entitlements) ∧
    ∀ x ∈ pool.store.entitlements, x.agentIdentityId.isSome → ∀ requestId,
      x.sourceAccessRequestId = some requestId → pool.store.Granted requestId := by
  constructor
  · intro t ht e he a hop
    obtain ⟨later, earlier, hlog⟩ := List.append_of_mem he
    obtain ⟨pool₀, i, t₀, after, _, hok, hi, _, _, hrest, hstore, _⟩ := h.of_log ht hlog
    rw [hop] at hrest
    have hwhole := hok i t₀ a rfl (Pool.pending_of_step hi hrest)
    obtain ⟨op, before⟩ := e
    obtain rfl : op = .approve a := hop
    rw [hstore] at hwhole
    exact approves_of_whole hwhole
  · induction h with
    | initial hs =>
      intro x hx
      rw [Pool.initial, hs.entitlements] at hx
      cases hx
    | @next pool pool' m hpool hm hnext ih =>
      cases m with
      | start c =>
        simp only [Pool.next, Option.some.injEq] at hnext
        subst hnext
        exact ih
      | resume i =>
        obtain ⟨t, op, after, ht, hrest, hstore, _, _⟩ := Pool.next_resume hnext
        have hpersists := (precedes_perform op pool.store).persists
        have hreach : AccessReachable pool := hpool.mono fun _ _ _ => trivial
        have hjustified := (hreach.obeys program_contract t (List.mem_of_getElem? ht)).2
        rw [hrest] at hjustified
        intro x hx hagent requestId hsource
        rw [hstore, apply_eq] at hx ⊢
        have hkept : (∃ x₀ ∈ pool.store.entitlements, x₀.Persists x) →
            (op.perform pool.store).Granted requestId := by
          rintro ⟨x₀, hx₀, hx₀x⟩
          rw [hx₀x.agentIdentityId] at hagent
          rw [hx₀x.sourceAccessRequestId] at hsource
          exact granted_of_persists hpersists (ih x₀ hx₀ hagent requestId hsource)
        rcases mem_entitlements_perform hx with hold | ⟨a, rfl, happroved⟩ | rfl | ⟨id, now, rfl⟩
        · exact hkept hold
        · rcases approves_of_whole (hm i t a rfl (Pool.pending_of_step ht hrest)) with
            ⟨_, q, hq, hstatus⟩ | hsame
          · obtain rfl : a.requestId = requestId := by
              rw [hsource] at happroved
              exact (Option.some.inj happroved).symm
            exact ⟨q, hq, .inl hstatus⟩
          · rw [apply_eq] at hsame
            rw [hsame] at hx
            exact hkept ⟨x, hx, .refl x⟩
        · have hdirect := (hjustified pool.store).1 hagent
          rw [hdirect] at hsource
          cases hsource
        · have hdirect := (hjustified pool.store).1 hagent
          rw [hdirect] at hsource
          cases hsource

end Runs

def Approval.landsCheck (a : Approval) (s : Store) : Bool :=
  (a.entitlements.all fun e => s.entitlementInsertable e a.requestId) &&
    decide (KeysUnique (s.entitlements ++ a.rows)) &&
    (s.findAccessRequest a.requestId).any fun r => r.status == .pending &&
      ({ s with entitlements := s.entitlements ++ a.rows } : Store).decisionHolds r
        (.approved a.decision)

theorem lands_of_check {a : Approval} {s : Store} (h : a.landsCheck s = true) : a.Lands s := by
  simp only [Approval.landsCheck, Bool.and_eq_true, List.all_eq_true, decide_eq_true_eq,
    Option.any_eq_true, beq_iff_eq] at h
  obtain ⟨⟨hinserts, hkeys⟩, r, hfound, hpending, hholds⟩ := h
  exact ⟨hinserts, hkeys, r, hfound, hpending, hholds⟩

def landsCheck (pool : AccessPool) : Move Call → Bool
  | .start _ => true
  | .resume i =>
    match pool.pending i with
    | some (_, .approve a) => a.landsCheck pool.store
    | _ => true

theorem wholeApprovals_of_check [Locale] {pool : AccessPool} {m : Move Call}
    (h : landsCheck pool m = true) : WholeApprovals pool m := by
  intro i t a hm hpending
  rw [hm, landsCheck, hpending] at h
  exact .inl (lands_of_check h)

/-- A request for two assigned scopes, and its approval up to the batch. -/
def approvalMoves : List (Move Call) :=
  Move.alone 0 (.createScopeEntitlement (held "e-list" "list") 0) 2 ++
    Move.alone 1 (.createScopeEntitlement (held "e-write" "write") 0) 2 ++
    Move.alone 2 (askedFor ["list", "write"]) 16 ++
    Move.alone 3 (approvedFor "id-1" .persistent) 17

set_option maxRecDepth 10000 in
theorem approvals_atomic_sample : ∃ pool : AccessPool,
    (∃ x ∈ pool.store.entitlements, x.sourceAccessRequestId = some "id-1") ∧
    ∀ x ∈ pool.store.entitlements, x.agentIdentityId.isSome → ∀ requestId,
      x.sourceAccessRequestId = some requestId → pool.store.Granted requestId := by
  have hrun : ((Pool.initial Sample.store).run Call.program landsCheck
      (approvalMoves ++ [.resume 3])).any (fun pool =>
        pool.store.entitlements.any (·.sourceAccessRequestId = some "id-1")) = true := by
    decide +kernel
  obtain ⟨pool, hpool, hcheck⟩ := (Option.any_eq_true _ _).mp hrun
  have hreach := Reachable.of_run (fun _ _ => wholeApprovals_of_check)
    (.initial Sample.store_fresh) hpool
  exact ⟨pool, by simpa using hcheck, (approvals_atomic hreach).2⟩

/-- The failed approval of a request which left an active entitlement behind. -/
def leavesGrant (requestId : Id) (pool : AccessPool)
    (t : Thread Call Store Operation Failure Reply) :
    Bool :=
  (match t.call, t.rest with
    | .decideAgentAccessRequest id (.approve _) _, .fail _ => id == requestId
    | _, _ => false) &&
  (t.log.any fun e => decide ((apply e.operation e.before).entitlements ≠ e.before.entitlements)) &&
  (pool.store.findAccessRequest requestId).any (·.status == .denied) &&
  pool.store.entitlements.any fun x =>
    decide (x.sourceAccessRequestId = some requestId) && x.active pool.store.now

set_option maxRecDepth 10000 in
/-- A direct grant of one scope and a denial come between the reads of an approval and its end:
the approval fails, yet the entitlement for the other scope stays. -/
theorem failed_approval_leaves_entitlement : ∃ pool : AccessPool, AccessReachable pool ∧
    ∃ t ∈ pool.threads, leavesGrant "id-1" pool t = true := by
  have hrun : (Sample.run (approvalMoves ++
      Move.alone 4
        (.createAgentPermission "a" ⟨"https://notes", ["list"], .persistent⟩ "u" none) 12 ++
      [.resume 3] ++ Move.alone 5 (.decideAgentAccessRequest "id-1" .deny "u") 10 ++
      List.replicate 3 (.resume 3))).any
      (fun pool => pool.threads.any (leavesGrant "id-1" pool)) = true := by
    decide +kernel
  obtain ⟨pool, hpool, hcheck⟩ := Sample.reachable_of_run hrun
  exact ⟨pool, hpool, List.any_eq_true.mp hcheck⟩

end FlareAuth
