import FlareAuth.Approvals
import FlareAuth.Concurrent.Trace
import Mathlib.Algebra.Order.Ring.WithTop
import Mathlib.Data.List.ReduceOption
import Mathlib.Data.Nat.Cast.Order.Ring
import Mathlib.Data.Nat.Cast.WithTop

/-!
# How strong a grant is

Lifetimes are ordered from a single use to a persistent grant. An approval and
a direct grant both write the maximum of what they read and what was asked for.
A store *widens* into another one when each entitlement in force is still in
force there under its key, with a lifetime that is no weaker.
-/

namespace FlareAuth

open Concurrent Procedure Relational Repository Statement

/-- A single use, then each expiry by its time, then no expiry at all. -/
def Lifetime.strength : Lifetime → WithBot (WithTop ℕ)
  | .once => ⊥
  | .expiring t => ((t : WithTop ℕ) : WithBot (WithTop ℕ))
  | .persistent => ((⊤ : WithTop ℕ) : WithBot (WithTop ℕ))

theorem Lifetime.strength_injective : Function.Injective Lifetime.strength := by
  intro l l' h
  cases l <;> cases l' <;> simp_all [strength]

instance : LinearOrder Lifetime := LinearOrder.lift' Lifetime.strength Lifetime.strength_injective

namespace Lifetime

theorem le_iff {l l' : Lifetime} : l ≤ l' ↔ l.strength ≤ l'.strength := Iff.rfl

@[simp] theorem once_le (l : Lifetime) : .once ≤ l := le_iff.mpr bot_le

@[simp] theorem le_persistent (l : Lifetime) : l ≤ .persistent := by
  cases l <;> simp [le_iff, strength]

@[simp] theorem expiring_le_expiring {t t' : ℕ} : expiring t ≤ .expiring t' ↔ t ≤ t' := by
  simp [le_iff, strength]

@[simp] theorem persistent_le {l : Lifetime} : persistent ≤ l ↔ l = .persistent := by
  cases l <;> simp [le_iff, strength]

@[simp] theorem not_expiring_le_once (t : ℕ) : ¬expiring t ≤ .once := by
  simp [le_iff, strength]

/-- An approval writes the maximum of the lifetime that it read and its own. -/
theorem approvedAs_getD (current requested : Lifetime) :
    (current.approvedAs requested).getD current = max current requested := by
  cases current with
  | persistent => cases requested <;> simp [approvedAs]
  | once => cases requested <;> simp [approvedAs]
  | expiring t =>
    cases requested with
    | persistent => simp [approvedAs]
    | once => simp [approvedAs]
    | expiring t' =>
      by_cases h : t < t'
      · have hle : expiring t ≤ expiring t' := expiring_le_expiring.mpr h.le
        simp [approvedAs, h, max_eq_right hle]
      · have hle : expiring t' ≤ expiring t := expiring_le_expiring.mpr (not_lt.mp h)
        simp [approvedAs, h, max_eq_left hle]

/-- So does a direct grant. -/
theorem strongerLifetime_getD (current requested : Lifetime) :
    (strongerLifetime current requested).getD current = max current requested := by
  cases current with
  | persistent => cases requested <;> simp [strongerLifetime]
  | once => cases requested <;> simp [strongerLifetime]
  | expiring t =>
    cases requested with
    | persistent => simp [strongerLifetime]
    | once => simp [strongerLifetime]
    | expiring t' =>
      by_cases h : t < t'
      · have hle : expiring t ≤ expiring t' := expiring_le_expiring.mpr h.le
        simp [strongerLifetime, h, max_eq_right hle]
      · have hle : expiring t' ≤ expiring t := expiring_le_expiring.mpr (not_lt.mp h)
        simp [strongerLifetime, h, max_eq_left hle]

end Lifetime

namespace ScopeEntitlement

theorem activeKey_of_ended {e : ScopeEntitlement} {t : ℕ × EndReason} (h : e.ended = some t) :
    e.activeKey = none := by simp [activeKey, h]

theorem activeKey_isSome {e : ScopeEntitlement} (h : e.ended = none) :
    ∃ key, e.activeKey = some key := by
  unfold activeKey
  rw [h]
  cases e.subject <;> exact ⟨_, rfl⟩

theorem ended_of_activeKey {e : ScopeEntitlement} {key : ActiveKey} (h : e.activeKey = some key) :
    e.ended = none := by
  cases hended : e.ended with
  | none => rfl
  | some t => simp [activeKey_of_ended hended] at h

/-- The key of an entitlement of an Agent. -/
theorem activeKey_agent {e : ScopeEntitlement} {id : Id} (h : e.ended = none)
    (hsubject : e.subject = .agent id) : e.activeKey = some ⟨.agent id, e.resourceServerId,
      e.connectionId.getD "", e.authorizationContextHash, e.scope⟩ := by
  simp [activeKey, h, hsubject]

theorem activeKey_congr {e f : ScopeEntitlement} (hended : f.ended = e.ended)
    (hsubject : f.subject = e.subject) (hresource : f.resourceServerId = e.resourceServerId)
    (hconnection : f.connectionId = e.connectionId)
    (hhash : f.authorizationContextHash = e.authorizationContextHash) (hscope : f.scope = e.scope) :
    f.activeKey = e.activeKey := by
  simp only [activeKey, hended, hsubject, hresource, hconnection, hhash, hscope]

/-- The same row, in force only if it was, and then no weaker. -/
structure Widens (old new : ScopeEntitlement) : Prop where
  id : new.id = old.id
  inForce : new.ended = none → old.ended = none
  lifetime : new.ended = none → old.lifetime ≤ new.lifetime

theorem Widens.refl (e : ScopeEntitlement) : e.Widens e := ⟨rfl, fun h => h, fun _ => le_rfl⟩

theorem Widens.trans {e f g : ScopeEntitlement} (h : e.Widens f) (h' : f.Widens g) :
    e.Widens g where
  id := h'.id.trans h.id
  inForce hg := h.inForce (h'.inForce hg)
  lifetime hg := (h.lifetime (h'.inForce hg)).trans (h'.lifetime hg)

end ScopeEntitlement

namespace Store

def Holds (s : Store) (key : ScopeEntitlement.ActiveKey) (lifetime : Lifetime) : Prop :=
  ∃ e ∈ s.entitlements, e.activeKey = some key ∧ lifetime ≤ e.lifetime

structure Widens (s t : Store) : Prop where
  rows : ∀ e ∈ s.entitlements, ∃ f ∈ t.entitlements, e.Widens f
  keys : ∀ key lifetime, s.Holds key lifetime → t.Holds key lifetime

theorem Widens.refl (s : Store) : s.Widens s := ⟨fun e he => ⟨e, he, .refl e⟩, fun _ _ h => h⟩

theorem Widens.trans {s t u : Store} (h : s.Widens t) (h' : t.Widens u) : s.Widens u where
  rows e he := by
    obtain ⟨f, hf, hef⟩ := h.rows e he
    obtain ⟨g, hg, hfg⟩ := h'.rows f hf
    exact ⟨g, hg, hef.trans hfg⟩
  keys key lifetime hs := h'.keys key lifetime (h.keys key lifetime hs)

theorem Widens.of_eq {s t : Store} (h : t.entitlements = s.entitlements) : s.Widens t := by
  refine ⟨fun e he => ⟨e, h ▸ he, .refl e⟩, fun key lifetime hs => ?_⟩
  rwa [Holds, h]

theorem Widens.append {s t : Store} {new : List ScopeEntitlement}
    (h : t.entitlements = s.entitlements ++ new) : s.Widens t := by
  have hold : ∀ e ∈ s.entitlements, e ∈ t.entitlements := by
    intro e he
    rw [h]
    exact List.mem_append_left _ he
  refine ⟨fun e he => ⟨e, hold e he, .refl e⟩, ?_⟩
  rintro key lifetime ⟨e, he, hkey, hlifetime⟩
  exact ⟨e, hold e he, hkey, hlifetime⟩

/-- Rows that are rewritten in place, each under its key and none weaker. -/
theorem Widens.evolves {s t : Store}
    (h : Evolves (fun e f => e.Widens f ∧ (e.ended = none → f.activeKey = e.activeKey))
      s.entitlements t.entitlements) : s.Widens t := by
  constructor
  · intro e he
    obtain ⟨f, hf, hwidens, _⟩ := h.exists_of_mem he
    exact ⟨f, hf, hwidens⟩
  · rintro key lifetime ⟨e, he, hkey, hlifetime⟩
    obtain ⟨f, hf, hwidens, hkeys⟩ := h.exists_of_mem he
    have hf' : f.activeKey = some key :=
      (hkeys (ScopeEntitlement.ended_of_activeKey hkey)).trans hkey
    have hle := hwidens.lifetime (ScopeEntitlement.ended_of_activeKey hf')
    exact ⟨f, hf, hf', hlifetime.trans hle⟩

end Store

section Batch

variable {a : Approval} {s t : Store}

/-- The inserts of an approval add some of its rows, in their order. -/
theorem insertAll_ok {es : List ScopeEntitlement} {requestId : Id}
    {inserted : List (Option ScopeEntitlement)}
    (h : Batch.all (es.map (insertEntitlement requestId)) s = .ok (inserted, t)) :
    t = { s with entitlements := s.entitlements ++ inserted.reduceOption } ∧
      inserted.reduceOption.Sublist (es.map (·.grantedUnder requestId)) := by
  induction es generalizing s t inserted with
  | nil =>
    cases h
    exact ⟨by rw [List.reduceOption_nil, List.append_nil], .slnil⟩
  | cons e es ih =>
    obtain ⟨first, s₁, hfirst, h⟩ := Batch.bind_eq_ok.mp h
    obtain ⟨rest, s₂, hrest, h⟩ := Batch.bind_eq_ok.mp h
    cases h
    obtain ⟨rfl, hsub⟩ := ih hrest
    unfold insertEntitlement at hfirst
    split at hfirst
    · cases hfirst
      refine ⟨?_, ?_⟩
      · simp [List.reduceOption_cons_of_some]
      · rw [List.reduceOption_cons_of_some]
        exact hsub.cons_cons _
    · cases hfirst
      rw [List.reduceOption_cons_of_none]
      exact ⟨rfl, hsub.cons _⟩

/-- What an update makes of a row. -/
def EntitlementUpdate.rewrite (u : EntitlementUpdate) (e : ScopeEntitlement) : ScopeEntitlement :=
  if e.id == u.id && e.ended.isNone then
    { e with lifetime := u.lifetime, authorizationContextHash := u.authorizationContextHash }
  else e

def rewriteAll (us : List EntitlementUpdate) (e : ScopeEntitlement) : ScopeEntitlement :=
  us.foldl (fun e u => u.rewrite e) e

theorem updateEntitlement_ok {u : EntitlementUpdate} {count : ℕ}
    (h : updateEntitlement u s = .ok (count, t)) :
    t = { s with entitlements := s.entitlements.map u.rewrite } := by
  obtain ⟨_, _, hread, h⟩ := Batch.bind_eq_ok.mp h
  cases hread
  obtain ⟨_, _, hset, h⟩ := Batch.bind_eq_ok.mp h
  cases h
  unfold setEntitlements at hset
  split at hset
  · cases hset
    rfl
  · cases hset

theorem updateAll_ok {us : List EntitlementUpdate} {counts : List ℕ}
    (h : Batch.all (us.map updateEntitlement) s = .ok (counts, t)) :
    t = { s with entitlements := s.entitlements.map (rewriteAll us) } := by
  induction us generalizing s counts with
  | nil =>
    cases h
    rw [show rewriteAll [] = id from rfl, List.map_id]
  | cons u us ih =>
    obtain ⟨count, s₁, hfirst, h⟩ := Batch.bind_eq_ok.mp h
    obtain ⟨rest, s₂, hrest, h⟩ := Batch.bind_eq_ok.mp h
    cases h
    rw [ih hrest, updateEntitlement_ok hfirst]
    simp [rewriteAll, Function.comp_def]

/-- A row is written as one of the updates says, or none of them names it while it is in force. -/
theorem rewriteAll_cases (us : List EntitlementUpdate) (e : ScopeEntitlement) :
    (rewriteAll us e = e ∧ ∀ u ∈ us, u.id = e.id → e.ended ≠ none) ∨
      ∃ u ∈ us, u.id = e.id ∧ e.ended = none ∧ rewriteAll us e = { e with
        lifetime := u.lifetime, authorizationContextHash := u.authorizationContextHash } := by
  induction us generalizing e with
  | nil => exact .inl ⟨rfl, fun u hu => nomatch hu⟩
  | cons u us ih =>
    have hunfold : rewriteAll (u :: us) e = rewriteAll us (u.rewrite e) := rfl
    by_cases hselected : e.id = u.id ∧ e.ended = none
    · have hwritten : u.rewrite e = { e with
          lifetime := u.lifetime, authorizationContextHash := u.authorizationContextHash } := by
        simp [EntitlementUpdate.rewrite, hselected]
      rw [hunfold, hwritten]
      refine .inr ?_
      rcases ih { e with
          lifetime := u.lifetime, authorizationContextHash := u.authorizationContextHash } with
        ⟨hsame, _⟩ | ⟨v, hv, hid, hended, hlater⟩
      · exact ⟨u, List.mem_cons_self, hselected.1.symm, hselected.2, hsame⟩
      · exact ⟨v, List.mem_cons_of_mem _ hv, hid, hended, hlater⟩
    · have hsame : u.rewrite e = e := by
        simp only [EntitlementUpdate.rewrite, Bool.and_eq_true, beq_iff_eq,
          Option.isNone_iff_eq_none, if_neg hselected]
      rw [hunfold, hsame]
      rcases ih e with ⟨hlater, hnone⟩ | ⟨v, hv, hlater⟩
      · refine .inl ⟨hlater, fun v hv hid hended => ?_⟩
        rcases List.mem_cons.mp hv with rfl | hv
        · exact hselected ⟨hid.symm, hended⟩
        · exact hnone v hv hid hended
      · exact .inr ⟨v, List.mem_cons_of_mem _ hv, hlater⟩

@[simp] theorem rewriteAll_id (us : List EntitlementUpdate) (e : ScopeEntitlement) :
    (rewriteAll us e).id = e.id := by
  rcases rewriteAll_cases us e with ⟨h, _⟩ | ⟨_, _, _, _, h⟩ <;> rw [h]

@[simp] theorem rewriteAll_ended (us : List EntitlementUpdate) (e : ScopeEntitlement) :
    (rewriteAll us e).ended = e.ended := by
  rcases rewriteAll_cases us e with ⟨h, _⟩ | ⟨_, _, _, _, h⟩ <;> rw [h]

/-- The entitlement that a decision names is in force. -/
theorem exists_of_approvedEntitlementHolds {q : AgentAccessRequest} {connectionId : Option Id}
    {x : ApprovedEntitlement} (h : s.approvedEntitlementHolds q connectionId x = true) :
    ∃ f ∈ s.entitlements, f.id = x.entitlementId ∧ f.resourceServerId = q.resourceId ∧
      f.connectionId = connectionId ∧ f.scope = x.scope ∧ f.ended = none := by
  unfold Store.approvedEntitlementHolds at h
  cases hfound : s.findEntitlement x.entitlementId with
  | none => simp [hfound] at h
  | some f =>
    simp only [hfound, Option.elim_some, Bool.and_eq_true, beq_iff_eq,
      Option.isNone_iff_eq_none] at h
    obtain ⟨⟨⟨⟨_, hresource⟩, hconnection⟩, hscope⟩, hended⟩ := h
    exact ⟨f, mem_of_lookup hfound, key_of_lookup hfound, hresource, hconnection, hscope, hended⟩

theorem insertAudit_ok {audit : AuditEvent} {selected : Store → Bool} {x : Unit}
    (h : insertAudit audit selected s = .ok (x, t)) :
      ∃ audits, t = { s with audits := audits } := by
  cases h
  dsimp only
  split
  · exact ⟨_, rfl⟩
  · exact ⟨s.audits, rfl⟩

theorem decideApproved_approved {inserted : List (Option ScopeEntitlement)} {updated : List ℕ}
    {es : List ScopeEntitlement} {r : AgentAccessRequest}
    (h : decideApproved a inserted updated s = .ok (.approved es r, t)) :
    inserted.reduceOption.length = a.entitlements.length ∧
      ∃ q ∈ s.requests, q.id = a.requestId ∧ s.decisionHolds q (.approved a.decision) = true ∧
        r = q.decide (.approved a.decision) ∧ r ∈ t.requests ∧ t.entitlements = s.entitlements := by
  obtain ⟨request, s₁, hupdate, h⟩ := Batch.bind_eq_ok.mp h
  cases hupdate
  obtain ⟨_, s₂, haudit, h⟩ := Batch.bind_eq_ok.mp h
  obtain ⟨audits, rfl⟩ := insertAudit_ok haudit
  split at h
  · cases h
  · rename_i hlength
    split at h
    · cases h
    · cases hrequest : s.requests.find? (fun q => q.id == a.requestId && q.status == .pending &&
          s.decisionHolds q (.approved a.decision)) with
      | none =>
        simp only [hrequest, Option.map_none] at h
        cases h
      | some q =>
        simp only [hrequest, Option.map_some] at h
        cases h
        have hselected := List.find?_some hrequest
        have hmem := List.mem_of_find?_eq_some hrequest
        refine ⟨not_not.mp hlength, q, hmem, ?_⟩
        have hdecided : q.decide (.approved a.decision) ∈ updateWhere (fun q =>
            q.id == a.requestId && q.status == .pending &&
              s.decisionHolds q (.approved a.decision)) (·.decide (.approved a.decision))
            s.requests := mem_updateWhere.mpr ⟨q, hmem, by rw [if_pos hselected]⟩
        rw [Bool.and_eq_true, Bool.and_eq_true, beq_iff_eq] at hselected
        exact ⟨hselected.1.1, hselected.2, rfl, hdecided, rfl⟩

/-- An approval that succeeds inserts all its rows, makes its updates and decides its request,
whose entitlements are then in force. -/
theorem approved_ok {es : List ScopeEntitlement} {r : AgentAccessRequest}
    (h : approveAccessRequestWithEntitlements a s = .ok (.approved es r, t)) :
    t.entitlements = (s.entitlements ++ a.rows).map (rewriteAll a.updates) ∧ r ∈ t.requests ∧
      ∃ q : AgentAccessRequest, q.id = a.requestId ∧ r = q.decide (.approved a.decision) ∧
        ∀ x ∈ a.decision.approvedEntitlements, ∃ f ∈ t.entitlements, f.id = x.entitlementId ∧
          f.resourceServerId = q.resourceId ∧ f.connectionId = a.decision.connectionId ∧
          f.scope = x.scope ∧ f.ended = none := by
  rw [approve_eq] at h
  obtain ⟨inserted, s₁, hinserts, h⟩ := Batch.bind_eq_ok.mp h
  obtain ⟨updated, s₂, hupdates, h⟩ := Batch.bind_eq_ok.mp h
  obtain ⟨rfl, hsub⟩ := insertAll_ok hinserts
  obtain rfl := updateAll_ok hupdates
  obtain ⟨hlength, q, hq, hid, hholds, hr, hmem, hsame⟩ := decideApproved_approved h
  have hall : inserted.reduceOption = a.rows := by
    refine hsub.eq_of_length ?_
    rw [hlength, List.length_map]
  rw [hall] at hsame
  refine ⟨hsame, hmem, q, hid, hr, fun x hx => ?_⟩
  simp only [Store.decisionHolds, Bool.and_eq_true, List.all_eq_true] at hholds
  obtain ⟨f, hf, hnamed⟩ := exists_of_approvedEntitlementHolds (hholds.2 x hx)
  refine ⟨f, ?_, hnamed⟩
  rw [hsame, ← hall]
  exact hf

/-- Every row that an update of the approval selects is no stronger than what the update writes,
and stays under its key. -/
def Approval.Strengthens (a : Approval) (s : Store) : Prop :=
  ∀ u ∈ a.updates, ∀ e ∈ s.entitlements ++ a.rows, e.id = u.id → e.ended = none →
    e.lifetime ≤ u.lifetime ∧ e.authorizationContextHash = u.authorizationContextHash

theorem widens_approve (h : a.Strengthens s) :
    s.Widens ((approveAccessRequestWithEntitlements a).settle s) := by
  cases hbatch : approveAccessRequestWithEntitlements a s with
  | error e =>
    rw [Batch.settle_of_error hbatch]
    exact .refl s
  | ok result =>
    obtain ⟨result, u⟩ := result
    rw [Batch.settle_of_ok hbatch]
    rw [approve_eq] at hbatch
    obtain ⟨inserted, s₁, hinserts, hbatch⟩ := Batch.bind_eq_ok.mp hbatch
    obtain ⟨updated, s₂, hupdates, hbatch⟩ := Batch.bind_eq_ok.mp hbatch
    obtain ⟨_, audits, hdecided⟩ := decideApproved_ok a inserted updated s₂
    rw [hdecided] at hbatch
    cases hbatch
    obtain ⟨rfl, hsub⟩ := insertAll_ok hinserts
    obtain rfl := updateAll_ok hupdates
    refine (Store.Widens.append (t := { s with
      entitlements := s.entitlements ++ inserted.reduceOption }) rfl).trans
        (.evolves (.map fun e he => ?_))
    have hrow : e ∈ s.entitlements ++ a.rows := by
      rcases List.mem_append.mp he with he | he
      · exact List.mem_append_left _ he
      · exact List.mem_append_right _ (hsub.subset he)
    rcases rewriteAll_cases a.updates e with ⟨hsame, _⟩ | ⟨u, hu, hid, hended, hwritten⟩
    · rw [hsame]
      exact ⟨.refl e, fun _ => rfl⟩
    · obtain ⟨hlifetime, hhash⟩ := h u hu e hrow hid.symm hended
      rw [hwritten]
      exact ⟨⟨rfl, fun h => h, fun _ => hlifetime⟩,
        fun _ => ScopeEntitlement.activeKey_congr rfl rfl rfl rfl hhash.symm rfl⟩

theorem widens_insertAudit (audit : AuditEvent) (selected : Store → Bool) :
    Batch.Within Store.Widens (insertAudit audit selected) := by
  refine .modify fun s => ?_
  split <;> exact .of_eq rfl

theorem widens_createAccessRequest (input : AgentAccessRequest) (audit : AuditEvent) :
    Batch.Within Store.Widens (createAccessRequestWithAudit input audit) := by
  refine .bind (fun _ _ _ => .trans) (fun s x t h => ?_) fun _ =>
    .bind (fun _ _ _ => .trans) (widens_insertAudit _ _) fun _ => .pure .refl _
  unfold insertAccessRequest at h
  split at h
  · cases h
    exact .refl s
  · split at h
    · cases h
    · cases h
      exact .of_eq rfl

theorem widens_decideAccessRequest (id : Id) (decision : AccessDecision) (audit : AuditEvent) :
    Batch.Within Store.Widens (decideAccessRequestWithAudit id decision audit) := by
  refine .bind (fun _ _ _ => .trans) (widens_insertAudit _ _) fun _ s x t h => ?_
  cases h
  exact .of_eq rfl

theorem widens_insertScopeEntitlement (input : ScopeEntitlement) (s : Store) :
    s.Widens ((insertScopeEntitlement input).settle s) := by
  rw [Batch.settle, insertScopeEntitlement]
  split
  · rename_i heq
    split at heq
    · cases heq
      exact .append rfl
    · cases heq
      exact .refl s
  · exact .refl s

theorem insertScopeEntitlement_ok {input e : ScopeEntitlement}
    (h : insertScopeEntitlement input s = .ok (some e, t)) :
    e = input ∧ t.entitlements = s.entitlements ++ [input] := by
  unfold insertScopeEntitlement at h
  split at h
  · cases h
    exact ⟨rfl, rfl⟩
  · cases h

theorem replaceExpiredEntitlement_ok {id : Id} {input : ScopeEntitlement} {now : ℕ} {x : Unit}
    (h : replaceExpiredEntitlement id input now s = .ok (x, t)) :
    t.entitlements = updateWhere (fun e => e.id == id) (·.finish .expired now) s.entitlements ++
      [input] := by
  obtain ⟨_, _, hended, h⟩ := Batch.bind_eq_ok.mp h
  cases hended
  unfold setEntitlements at h
  split at h
  · cases h
    rfl
  · cases h

/-- An expired row that is still in force gives way to a grant of its key that is no weaker. -/
theorem widens_replaceExpiredEntitlement {id : Id} {input : ScopeEntitlement} (now : ℕ)
    (h : ∀ e ∈ s.entitlements, e.id = id → e.ended = none →
      e.activeKey = input.activeKey ∧ e.lifetime ≤ input.lifetime) :
    s.Widens ((replaceExpiredEntitlement id input now).settle s) := by
  cases hbatch : replaceExpiredEntitlement id input now s with
  | error e =>
    rw [Batch.settle_of_error hbatch]
    exact .refl s
  | ok result =>
    obtain ⟨x, t⟩ := result
    rw [Batch.settle_of_ok hbatch]
    have hrows := replaceExpiredEntitlement_ok hbatch
    constructor
    · intro e he
      by_cases hid : e.id = id
      · refine ⟨e.finish .expired now, ?_, rfl, (fun hended => nomatch hended),
          fun hended => nomatch hended⟩
        rw [hrows]
        exact List.mem_append_left _ (mem_updateWhere.mpr ⟨e, he, if_pos (by simpa using hid)⟩)
      · refine ⟨e, ?_, .refl e⟩
        rw [hrows]
        exact List.mem_append_left _ (mem_updateWhere.mpr ⟨e, he, if_neg (by simpa using hid)⟩)
    · rintro key lifetime ⟨e, he, hkey, hlifetime⟩
      by_cases hid : e.id = id
      · obtain ⟨hsame, hle⟩ := h e he hid (ScopeEntitlement.ended_of_activeKey hkey)
        refine ⟨input, ?_, hsame.symm.trans hkey, hlifetime.trans hle⟩
        rw [hrows]
        exact List.mem_append_right _ (List.mem_singleton_self _)
      · refine ⟨e, ?_, hkey, hlifetime⟩
        rw [hrows]
        exact List.mem_append_left _ (mem_updateWhere.mpr ⟨e, he, if_neg (by simpa using hid)⟩)

theorem strengthenEntitlement_ok {id : Id} {lifetime : Option Lifetime} {hash : Digest String}
    {x : Option ScopeEntitlement} (h : strengthenEntitlement id lifetime hash s = .ok (x, t)) :
    t.entitlements = updateWhere (fun e => e.id == id) (fun e =>
      { e with lifetime := lifetime.getD e.lifetime, authorizationContextHash := hash })
      s.entitlements ∧ x = t.findEntitlement id := by
  obtain ⟨_, _, hset, h⟩ := Batch.bind_eq_ok.mp h
  cases h
  unfold setEntitlements at hset
  split at hset
  · cases hset
    exact ⟨rfl, rfl⟩
  · cases hset

theorem widens_strengthenEntitlement {id : Id} {lifetime : Option Lifetime} {hash : Digest String}
    (h : ∀ e ∈ s.entitlements, e.id = id → e.ended = none ∧
      e.lifetime ≤ lifetime.getD e.lifetime ∧ e.authorizationContextHash = hash) :
    s.Widens ((strengthenEntitlement id lifetime hash).settle s) := by
  cases hbatch : strengthenEntitlement id lifetime hash s with
  | error e =>
    rw [Batch.settle_of_error hbatch]
    exact .refl s
  | ok result =>
    obtain ⟨x, t⟩ := result
    rw [Batch.settle_of_ok hbatch]
    refine .evolves ?_
    rw [(strengthenEntitlement_ok hbatch).1]
    refine .updateWhere (fun e => ⟨.refl e, fun _ => rfl⟩) fun e he hid => ?_
    obtain ⟨_, hlifetime, hhash⟩ := h e he (by simpa using hid)
    exact ⟨⟨rfl, fun h => h, fun _ => hlifetime⟩,
      fun _ => ScopeEntitlement.activeKey_congr rfl rfl rfl rfl hhash.symm rfl⟩

end Batch

section Steps

def Operation.Granting : Operation → Prop
  | .read _ | .generateId | .elapse _ | .outside _ | .administer _ | .createAccessRequest _ _
  | .decideAccessRequest _ _ _ | .approve _ | .insertScopeEntitlement _
  | .replaceExpiredEntitlement _ _ _ | .strengthenEntitlement _ _ _ => True
  | _ => False

/-- What an operation writes over an entitlement is no weaker than what it finds there. -/
def Operation.Strengthens (s : Store) : Operation → Prop
  | .approve a => a.Strengthens s
  | .replaceExpiredEntitlement id input _ => ∀ e ∈ s.entitlements, e.id = id → e.ended = none →
      e.activeKey = input.activeKey ∧ e.lifetime ≤ input.lifetime
  | .strengthenEntitlement id lifetime hash => ∀ e ∈ s.entitlements, e.id = id →
      e.ended = none ∧ e.lifetime ≤ lifetime.getD e.lifetime ∧ e.authorizationContextHash = hash
  | _ => True

theorem widens_perform {op : Operation} {s : Store} (hgranting : op.Granting)
    (h : op.Strengthens s) : s.Widens (op.perform s) := by
  cases op with
  | approve a => exact widens_approve h
  | insertScopeEntitlement input => exact widens_insertScopeEntitlement input s
  | replaceExpiredEntitlement id input now => exact widens_replaceExpiredEntitlement now h
  | strengthenEntitlement id lifetime hash => exact widens_strengthenEntitlement h
  | createAccessRequest input audit => exact (widens_createAccessRequest input audit).settle .refl s
  | decideAccessRequest id decision audit =>
    exact (widens_decideAccessRequest id decision audit).settle .refl s
  | read query => exact .refl s
  | generateId => exact .of_eq rfl
  | elapse milliseconds => exact .of_eq rfl
  | outside world => exact .of_eq rfl
  | administer change => exact .of_eq rfl
  | _ => exact hgranting.elim

end Steps

end FlareAuth
