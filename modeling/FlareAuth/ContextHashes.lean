import FlareAuth.CanonicalJson
import FlareAuth.DetailMatching
import FlareAuth.StrongestGrants

/-!
# The hashes of Contexts

An entitlement of an Agent has the hash of its Context, whose details differ from each
other. An approval may give it the hash of details that are the same in another order,
which makes no difference when there is at most one of them.
-/

namespace FlareAuth

open Concurrent Procedure Access Relational Statement Repository

section Rows

variable {α β : Type}

def Operation.hashes : Operation → List (Id × Digest String)
  | .approve a => a.updates.map fun u => (u.id, u.authorizationContextHash)
  | .strengthenEntitlement id _ hash => [(id, hash)]
  | _ => []

structure Operation.Respects (P : ScopeEntitlement → Prop) (op : Operation) : Prop where
  finish : ∀ e reason now, P e → P (e.finish reason now)
  detach : ∀ e, P e → P { e with connectionId := none }
  grant : ∀ e requestId, P e → P (e.grantedUnder requestId)
  insert : ∀ e ∈ op.inserts, P e
  write : ∀ w ∈ op.hashes, ∀ e lifetime, P e → e.id = w.1 →
    P { e with lifetime := lifetime, authorizationContextHash := w.2 }

/-- All entitlements of a store have a property, if those of another one have it. -/
def Store.RowsKeep (P : ScopeEntitlement → Prop) (s t : Store) : Prop :=
  (∀ e ∈ s.entitlements, P e) → ∀ e ∈ t.entitlements, P e

variable {P : ScopeEntitlement → Prop} {op : Operation} {s t : Store}

theorem Store.RowsKeep.refl (s : Store) : s.RowsKeep P s := fun h => h

theorem Store.RowsKeep.trans {u : Store} (h : s.RowsKeep P t) (h' : t.RowsKeep P u) :
    s.RowsKeep P u :=
  fun hs => h' (h hs)

theorem Store.RowsKeep.of_eq (h : t.entitlements = s.entitlements) : s.RowsKeep P t := by
  intro hs
  rwa [h]

theorem Store.RowsKeep.update {p : ScopeEntitlement → Bool}
    {f : ScopeEntitlement → ScopeEntitlement}
    (h : t.entitlements = updateWhere p f s.entitlements) (hf : ∀ e, p e = true → P e → P (f e)) :
    s.RowsKeep P t := by
  intro hs e he
  rw [h] at he
  obtain ⟨e₀, he₀, rfl⟩ := mem_updateWhere.mp he
  by_cases hp : p e₀ = true
  · rw [if_pos hp]
    exact hf e₀ hp (hs e₀ he₀)
  · rw [if_neg hp]
    exact hs e₀ he₀

theorem Store.RowsKeep.append {row : ScopeEntitlement}
    (h : t.entitlements = s.entitlements ++ [row])
    (hrow : P row) : s.RowsKeep P t := by
  intro hs e he
  rw [h] at he
  rcases List.mem_append.mp he with he | he
  · exact hs e he
  · exact List.mem_singleton.mp he ▸ hrow

theorem rowsKeep_bind {b : StoreBatch α} {f : α → StoreBatch β}
    (hb : Batch.Within (Store.RowsKeep P) b) (hf : ∀ x, Batch.Within (Store.RowsKeep P) (f x)) :
    Batch.Within (Store.RowsKeep P) (b >>= f) := hb.bind (fun _ _ _ => .trans) hf

theorem rowsKeep_pure (x : α) : Batch.Within (Store.RowsKeep P) (pure x : StoreBatch α) :=
  .pure .refl x

theorem rowsKeep_read (f : Store → α) :
    Batch.Within (Store.RowsKeep P) (Batch.read f : StoreBatch α) := .read .refl f

theorem rowsKeep_insertAudit (audit : AuditEvent) (selected : Store → Bool) :
    Batch.Within (Store.RowsKeep P) (insertAudit audit selected) := by
  refine .modify fun s => ?_
  split <;> exact .of_eq rfl

theorem rowsKeep_setEntitlements {f : List ScopeEntitlement → List ScopeEntitlement}
    (h : ∀ s : Store, s.RowsKeep P { s with entitlements := f s.entitlements }) :
    Batch.Within (Store.RowsKeep P) (setEntitlements f) := by
  intro s x t hs
  unfold setEntitlements at hs
  split at hs
  · cases hs
    exact h s
  · cases hs

theorem rowsKeep_endEntitlements (hfinish : ∀ e reason now, P e → P (e.finish reason now))
    (selected : ScopeEntitlement → Bool) (reason : EndReason) (now : ℕ) :
    Batch.Within (Store.RowsKeep P) (endEntitlements selected reason now) :=
  .modify fun _ => .update rfl fun e _ => hfinish e reason now

theorem rowsKeep_approve {a : Approval} (h : Operation.Respects P (.approve a)) :
    Batch.Within (Store.RowsKeep P) (approveAccessRequestWithEntitlements a) := by
  refine rowsKeep_bind (.all .refl (fun _ _ _ => .trans) fun b hb => ?_) fun inserted => ?_
  · obtain ⟨input, hinput, rfl⟩ := List.mem_map.mp hb
    intro s x t hs
    unfold insertEntitlement at hs
    split at hs
    · cases hs
      exact .append rfl (h.grant input a.requestId (h.insert input hinput))
    · cases hs
      exact .refl s
  refine rowsKeep_bind (.all .refl (fun _ _ _ => .trans) fun b hb => ?_) fun updated => ?_
  · obtain ⟨update, hupdate, rfl⟩ := List.mem_map.mp hb
    refine rowsKeep_bind (rowsKeep_read _) fun _ => rowsKeep_bind ?_ fun _ => rowsKeep_pure _
    refine rowsKeep_setEntitlements fun s => .update rfl fun e hselected he => ?_
    rw [Bool.and_eq_true, beq_iff_eq] at hselected
    exact h.write _ (List.mem_map_of_mem hupdate) e update.lifetime he hselected.1
  refine rowsKeep_bind (fun s x t hs => ?_) fun request => ?_
  · cases hs
    exact .of_eq rfl
  refine rowsKeep_bind (rowsKeep_insertAudit _ _) fun _ => ?_
  split
  · exact rowsKeep_pure _
  · split
    · exact rowsKeep_pure _
    · cases request <;> exact rowsKeep_pure _

theorem rowsKeep_issueTokenLease (hfinish : ∀ e reason now, P e → P (e.finish reason now))
    (i : Issuance) : Batch.Within (Store.RowsKeep P) (issueTokenLeaseWithAudit i) := by
  refine rowsKeep_bind (fun s x t hs => ?_) fun lease => rowsKeep_bind (.modify fun s => ?_)
    fun _ => rowsKeep_bind (.modify fun s => ?_) fun _ =>
      rowsKeep_bind (rowsKeep_insertAudit _ _) fun _ => rowsKeep_pure _
  · unfold insertTokenLease at hs
    split at hs
    · split at hs <;> cases hs
      exact .of_eq rfl
    · cases hs
      exact .refl s
  · split <;> exact .of_eq rfl
  · split
    · exact .update rfl fun e _ => hfinish e .consumed i.now
    · exact .refl s

/-- An operation keeps a property of entitlements that it respects. -/
theorem rowsKeep_perform (h : op.Respects P) (s : Store) : s.RowsKeep P (op.perform s) := by
  have hsettle : ∀ {γ : Type} {b : StoreBatch γ}, Batch.Within (Store.RowsKeep P) b →
      s.RowsKeep P (b.settle s) := fun hb => hb.settle .refl s
  have hends := rowsKeep_endEntitlements h.finish
  cases op with
  | approve a => exact hsettle (rowsKeep_approve h)
  | insertScopeEntitlement input =>
    refine hsettle fun s x t hs => ?_
    unfold insertScopeEntitlement at hs
    split at hs
    · cases hs
      exact .append rfl (h.insert input List.mem_cons_self)
    · cases hs
      exact .refl s
  | replaceExpiredEntitlement id input now =>
    exact hsettle (rowsKeep_bind (hends _ _ _) fun _ => rowsKeep_setEntitlements fun s =>
      .append rfl (h.insert input List.mem_cons_self))
  | strengthenEntitlement id lifetime hash =>
    refine hsettle (rowsKeep_bind (rowsKeep_setEntitlements fun s => .update rfl
      fun e hselected he => ?_) fun _ => rowsKeep_read _)
    exact h.write _ List.mem_cons_self e _ he (beq_iff_eq.mp hselected)
  | read q => exact .refl s
  | generateId => exact .of_eq rfl
  | elapse milliseconds => exact .of_eq rfl
  | outside world => exact .of_eq rfl
  | administer change => exact .of_eq rfl
  | createAccessRequest input audit =>
    refine hsettle (rowsKeep_bind (fun s x t hs => ?_) fun _ =>
      rowsKeep_bind (rowsKeep_insertAudit _ _) fun _ => rowsKeep_pure _)
    unfold insertAccessRequest at hs
    split at hs
    · cases hs
      exact .refl s
    · split at hs <;> cases hs
      exact .of_eq rfl
  | decideAccessRequest id decision audit =>
    refine hsettle (rowsKeep_bind (rowsKeep_insertAudit _ _) fun _ s x t hs => ?_)
    cases hs
    exact .of_eq rfl
  | endEntitlement id reason now =>
    exact hsettle (rowsKeep_bind (rowsKeep_read _) fun _ =>
      rowsKeep_bind (hends _ _ _) fun _ => rowsKeep_pure _)
  | endEntitlementWithAudit id reason leaseIds now audit =>
    exact hsettle (rowsKeep_bind (rowsKeep_insertAudit _ _) fun _ =>
      rowsKeep_bind (rowsKeep_bind (rowsKeep_read _) fun _ =>
        rowsKeep_bind (hends _ _ _) fun _ => rowsKeep_pure _) fun _ =>
        rowsKeep_bind (.modify fun _ => .of_eq rfl) fun _ => rowsKeep_pure _)
  | endEntitlementsById ids now => exact hsettle (hends _ _ _)
  | issueTokenLease i => exact hsettle (rowsKeep_issueTokenLease h.finish i)
  | revokeTokenLease id now => exact .of_eq rfl
  | revokeConnection id now => exact .of_eq rfl
  | revokeProviderConnection id owner account => exact .of_eq rfl
  | revokeResourceAuthorizations ids now =>
    exact hsettle (rowsKeep_bind (.modify fun _ => .of_eq rfl) fun _ =>
      rowsKeep_bind (rowsKeep_setEntitlements fun _ => .update rfl fun e _ => h.detach e) fun _ =>
        .modify fun _ => .of_eq rfl)
  | deleteResource id now audit =>
    exact hsettle (rowsKeep_bind (rowsKeep_insertAudit _ _) fun _ =>
      rowsKeep_bind (.modify fun _ => .of_eq rfl) fun _ =>
        rowsKeep_bind (.modify fun _ => .of_eq rfl) fun _ =>
          rowsKeep_bind (hends _ _ _) fun _ =>
            rowsKeep_bind (rowsKeep_read _) fun _ => .modify fun _ => .of_eq rfl)

end Rows

variable [Locale] {α β : Type}

section Contract

/-- The hash of an Agent's entitlement with at most one detail is that of its details. -/
def ScopeEntitlement.Hashed (e : ScopeEntitlement) : Prop :=
  e.agentIdentityId.isSome = true → e.authorizationDetails.length ≤ 1 →
    e.authorizationContextHash = contextHash e.authorizationDetails

/-- The details of an Agent's entitlement have different texts. -/
def ScopeEntitlement.DistinctDetails (e : ScopeEntitlement) : Prop :=
  e.agentIdentityId.isSome = true → (e.authorizationDetails.map canonicalJson).Nodup

theorem contextHash_of_exact {left right : List AuthorizationDetail}
    (h : exactAuthorizationDetails left right = true) (hlength : left.length ≤ 1) :
    contextHash left = contextHash right := by
  have hsame : left.length = right.length := by
    rw [exactAuthorizationDetails, Bool.and_eq_true, beq_iff_eq] at h
    exact h.1
  cases left with
  | nil =>
    obtain rfl := List.length_eq_zero_iff.mp hsame.symm
    rfl
  | cons d left =>
    obtain rfl : left = [] := by simpa using hlength
    obtain ⟨d', rfl⟩ := List.length_eq_one_iff.mp hsame.symm
    have htext : d.render sortByKey = d'.render sortByKey :=
      (exactAuthorizationDetails_singleton d d').mp h
    simp only [contextHash, canonicalJson, Json.render, Json.renderItems, htext]

/-- The hash is written into an entitlement that was read, and is right for it if its own is. -/
def Rehashes (log : AccessLog) (w : Id × Digest String) : Prop :=
  ∃ d ∈ log, ∃ e ∈ d.before.entitlements, e.id = w.1 ∧
    (e.Hashed → ({ e with authorizationContextHash := w.2 } : ScopeEntitlement).Hashed)

/-- An operation inserts entitlements of different details with their hashes, and writes right
ones. -/
def Hashes (log : AccessLog) (_ : Store) (op : Operation) : Prop :=
  (∀ e ∈ op.inserts, e.Hashed ∧ e.DistinctDetails ∧
    ∀ w ∈ op.hashes, e.authorizationContextHash = w.2) ∧
  ∀ w ∈ op.hashes, Rehashes log w

abbrev Hashing (p : Access α) (log : AccessLog) : Prop := p.Obeys Hashes (fun _ _ => True) log

/-- The operations that neither insert an entitlement nor write a hash. -/
def Operation.SparesHashes (op : Operation) : Prop := op.inserts = [] ∧ op.hashes = []

abbrev Access.SparesHashes (p : Access α) : Prop := p.Only Operation.SparesHashes

theorem hashes_of_spares {log : AccessLog} {s : Store} {op : Operation} (h : op.SparesHashes) :
    Hashes log s op := by
  rw [Hashes, h.1, h.2]
  exact ⟨fun _ he => (List.not_mem_nil he).elim, fun _ hw => (List.not_mem_nil hw).elim⟩

omit [Locale] in
theorem sparesHashes_of_reads {p : Access α} (h : p.Reads) : p.SparesHashes :=
  h.mono fun op hop => by cases op <;> first | exact ⟨rfl, rfl⟩ | exact hop.elim

omit [Locale] in
theorem sparesHashes_commit {op : Operation} {batch : StoreBatch α} (h : op.SparesHashes) :
    (commit op batch).SparesHashes := ⟨h, fun _ => only_ofExcept _⟩

omit [Locale] in
theorem sparesHashes_bind {p : Access α} {f : α → Access β} (h : p.SparesHashes)
    (hf : ∀ a, (f a).SparesHashes) : (p >>= f).SparesHashes := only_bind.mpr ⟨h, fun a _ => hf a⟩

omit [Locale] in
theorem sparesHashes_reads_bind {p : Access α} {f : α → Access β} (h : p.Reads)
    (hf : ∀ a, (f a).SparesHashes) : (p >>= f).SparesHashes :=
  sparesHashes_bind (sparesHashes_of_reads h) hf

theorem hashing_of_spares {p : Access α} (h : p.SparesHashes) (log : AccessLog) :
    Hashing p log :=
  h.obeys (fun _ _ _ => hashes_of_spares) (fun _ _ _ _ => trivial) fun _ _ _ => trivial

theorem hashing_bind {p : Access α} {f : α → Access β} {log : AccessLog} (h : Hashing p log)
    (hf : ∀ log' a, log <:+ log' → Hashing (f a) log') : Hashing (p >>= f) log :=
  Obeys.bind h (fun log' a hlog _ => hf log' a hlog) fun _ _ _ => trivial

theorem hashing_reads_bind {p : Access α} {f : α → Access β} {log : AccessLog} (h : p.Reads)
    (hf : ∀ log' a, log <:+ log' → Hashing (f a) log') : Hashing (p >>= f) log :=
  hashing_bind (hashing_of_spares (sparesHashes_of_reads h) log) hf

theorem hashing_ask_bind {query : Query} {answer : Store → α} {f : α → Access β} {log : AccessLog}
    (h : ∀ s, Hashing (f (answer s)) (⟨.read query, s⟩ :: log)) :
    Hashing (ask query answer >>= f) log := fun s => ⟨hashes_of_spares ⟨rfl, rfl⟩, h s⟩

theorem hashing_ite {c : Prop} [Decidable c] {p q : Access α} {log : AccessLog}
    (hp : Hashing p log) (hq : Hashing q log) : Hashing (if c then p else q) log := by
  by_cases h : c
  · rwa [if_pos h]
  · rwa [if_neg h]

theorem hashing_ite' {c : Prop} [Decidable c] {p q : Access α} {log : AccessLog}
    (hp : c → Hashing p log) (hq : Hashing q log) : Hashing (if c then p else q) log := by
  by_cases h : c
  · rw [if_pos h]
    exact hp h
  · rwa [if_neg h]

theorem hashing_commit {op : Operation} {batch : StoreBatch α} {log : AccessLog}
    (h : ∀ s, Hashes log s op) : Hashing (commit op batch) log :=
  fun s => ⟨h s, hashing_of_spares (only_ofExcept _) _⟩

theorem hashing_collect {bs : List β} {body : β → Access α} (log : AccessLog)
    (h : ∀ b ∈ bs, ∀ log', Hashing (body b) log') : Hashing (collect bs body) log := by
  induction bs generalizing log with
  | nil => exact trivial
  | cons b bs ih =>
    refine hashing_bind (h b List.mem_cons_self log) fun log _ _ => ?_
    have hrest := ih log fun b' hb' => h b' (List.mem_cons_of_mem b hb')
    exact hashing_bind hrest fun _ _ _ => trivial

end Contract

section Grants

/-- The operation of an approval, from what its input was computed from. -/
theorem hashes_approve {c : ApprovalContext} {approvals : List ScopeApproval} {a : Approval}
    {log : AccessLog} {d : Event Store Operation} (hd : d ∈ log) {now : ℕ}
    (ha : a = c.approval approvals a.audit)
    (hdistinct : (c.authorizationDetails.map canonicalJson).Nodup)
    (hcovers : List.Forall₂ (c.Covers ((d.before.listActiveEntitlementsByAgent
      c.request.agentIdentityId now).filter c.equivalent)) c.request.scopes approvals) (s : Store) :
    Hashes log s (.approve a) := by
  have hcover : ∀ x ∈ approvals, ∃ scope, c.Covers ((d.before.listActiveEntitlementsByAgent
      c.request.agentIdentityId now).filter c.equivalent) scope x := by
    intro x hx
    obtain ⟨i, hi, rfl⟩ := List.mem_iff_getElem.mp hx
    have hlength := hcovers.length_eq
    exact ⟨_, hcovers.get (by omega) hi⟩
  have hwrites : ∀ w ∈ (Operation.approve a).hashes, w.2 = c.hash ∧ ∃ e,
      e ∈ d.before.entitlements ∧ w.1 = e.id ∧
        exactAuthorizationDetails e.authorizationDetails c.authorizationDetails = true := by
    intro w hw
    obtain ⟨u, hu, rfl⟩ := List.mem_map.mp hw
    rw [ha] at hu
    obtain ⟨x, hx, hupdated⟩ := List.mem_filterMap.mp hu
    obtain ⟨scope, hscope⟩ := hcover x hx
    cases x with
    | update e u' =>
      obtain rfl := Option.some.inj hupdated
      obtain ⟨he, hid, _, hhash⟩ := hscope
      obtain ⟨hlisted, hequivalent⟩ := List.mem_filter.mp he
      simp only [ApprovalContext.equivalent, Bool.and_eq_true] at hequivalent
      exact ⟨hhash, e, (List.mem_filter.mp (mem_byCreation.mp hlisted)).1, hid, hequivalent.2⟩
    | keep e => cases hupdated
    | create e => cases hupdated
  refine ⟨fun e he => ?_, fun w hw => ?_⟩
  · have he' : e ∈ (c.approval approvals a.audit).entitlements := ha ▸ he
    obtain ⟨x, hx, hcreated⟩ := List.mem_filterMap.mp he'
    obtain ⟨scope, hscope⟩ := hcover x hx
    cases x with
    | create e' =>
      obtain rfl := Option.some.inj hcreated
      obtain ⟨id, rfl⟩ := hscope
      exact ⟨fun _ _ => rfl, fun _ => hdistinct, fun w hw => (hwrites w hw).1.symm⟩
    | keep e' => cases hcreated
    | update e' u => cases hcreated
  · obtain ⟨hhash, e, he, hid, hexact⟩ := hwrites w hw
    refine ⟨d, hd, e, he, hid.symm, fun _ _ hlength => ?_⟩
    rw [hhash]
    exact (contextHash_of_exact hexact hlength).symm

theorem hashing_decideAttempts (requestId : Id) (input : DecideAgentAccessRequest)
    (actorUserId : Id) (reasonCode : Option String) (attempts : ℕ) (log : AccessLog) :
    Hashing (decideAttempts requestId input actorUserId reasonCode attempts) log := by
  induction attempts generalizing log with
  | zero => exact trivial
  | succ attempts ih =>
    refine hashing_reads_bind (by simp) fun log ⟨request, connection, now⟩ _ => ?_
    cases input with
    | deny =>
      refine hashing_of_spares ?_ log
      refine sparesHashes_reads_bind (by simp) fun audit => ?_
      refine sparesHashes_bind (sparesHashes_commit ⟨rfl, rfl⟩) fun decided => ?_
      exact sparesHashes_of_reads (by simp)
    | approve input =>
      refine (leaves_prepareApproval request input actorUserId reasonCode now).obeys_bind
        (sparesHashes_of_reads (by simp)) (fun _ _ _ => hashes_of_spares) (fun new a ha _ => ?_)
        fun _ _ _ => trivial
      obtain ⟨c, approvals, happroval, hrequest, _, hmatch, d, hd, now', hcovers⟩ := ha
      rw [← hrequest] at hcovers
      have hdistinct := (authorizationDetailsMatchRequest_iff.mp hmatch).2.1
      refine hashing_bind (hashing_commit (hashes_approve (List.mem_append_left _ hd) happroval
        hdistinct hcovers)) fun log result _ => ?_
      cases result with
      | approved entitlements approved =>
        exact hashing_of_spares (sparesHashes_of_reads (by simp)) log
      | resourceUnavailable => exact trivial
      | requestChanged => exact trivial
      | entitlementsChanged =>
        refine hashing_reads_bind (by simp) fun log found _ => ?_
        cases found with
        | none => exact ih log
        | some decided =>
          exact hashing_ite (hashing_of_spares (sparesHashes_of_reads (by simp)) log) (ih log)

theorem hashing_createAgentAccessRequest (input : CreateAgentAccessRequest)
    (principal : AgentResourcePrincipal) (log : AccessLog) :
    Hashing (createAgentAccessRequest input principal) log := by
  have hautomatic : ∀ draft id owner log, Hashing (approveAutomatically draft id owner) log :=
    fun draft id owner log => hashing_decideAttempts id
      (.approve ⟨.persistent, some draft.authorizationDetails⟩) owner
      (some "automatic_scope_policy") 2 log
  have hstore : ∀ draft, (storeAccessRequest draft input.reason principal).SparesHashes := by
    intro draft
    refine sparesHashes_reads_bind (by simp) fun _ => sparesHashes_reads_bind (by simp) fun _ => ?_
    refine sparesHashes_reads_bind (by simp) fun _ => ?_
    exact sparesHashes_bind (sparesHashes_commit ⟨rfl, rfl⟩) fun _ =>
      sparesHashes_of_reads (by simp)
  refine hashing_reads_bind (by simp) fun log draft _ => ?_
  refine hashing_reads_bind (by simp [findMatchingRequest]) fun log pending _ => ?_
  cases pending with
  | some pending => exact hashing_ite (hautomatic _ _ _ _) trivial
  | none =>
    refine hashing_bind (hashing_of_spares (hstore draft) log) fun log created _ => ?_
    exact hashing_ite (hautomatic _ _ _ _) trivial

/-- A direct grant writes its hash over an equivalent of the same details, or over the same
hash. -/
theorem hashing_createScopeEntitlement {input : ScopeEntitlement} (hinput : input.Hashed)
    (hdistinct : input.DistinctDetails) (now : ℕ) (log : AccessLog) :
    Hashing (createScopeEntitlement input now) log := by
  have hrehashes : ∀ e, activeEquivalentEntitlement input e = true → e.Hashed →
      ({ e with authorizationContextHash := input.authorizationContextHash } :
        ScopeEntitlement).Hashed := by
    intro e hequivalent he hagent hlength
    rw [activeEquivalentEntitlement] at hequivalent
    simp only [Bool.and_eq_true, beq_iff_eq, Bool.or_eq_true] at hequivalent
    obtain ⟨⟨⟨⟨⟨hsubject, -⟩, -⟩, hcontext⟩, -⟩, -⟩ := hequivalent
    rcases hcontext with hhash | htext
    · rw [← hhash]
      exact he hagent hlength
    · have hdetails : e.authorizationDetails = input.authorizationDetails := by
        exact Json.array.inj (Json.stringify_injective htext)
      have hsame : input.agentIdentityId = e.agentIdentityId := by
        rw [ScopeEntitlement.agentIdentityId, ← hsubject]
        rfl
      have hhash := hinput (hsame ▸ hagent) (hdetails ▸ hlength)
      rw [← hdetails] at hhash
      exact hhash
  have hmerge : ∀ (d : Event Store Operation) e log, d ∈ log → e ∈ d.before.entitlements →
      activeEquivalentEntitlement input e = true →
      Hashing (mergeScopeEntitlement e input now) log := by
    intro d e log hd he hequivalent
    refine hashing_ite ?_ (hashing_ite trivial ?_)
    · refine hashing_bind (hashing_commit fun s =>
        ⟨fun f hf => ?_, fun w hw => absurd hw List.not_mem_nil⟩) fun _ _ _ => trivial
      obtain rfl := List.mem_singleton.mp hf
      exact ⟨hinput, hdistinct, fun w hw => absurd hw List.not_mem_nil⟩
    · refine hashing_bind (hashing_commit fun s =>
          ⟨fun f hf => absurd hf List.not_mem_nil, fun w hw => ?_⟩)
        fun log _ _ => hashing_of_spares (only_orThrow _ _) log
      obtain rfl := List.mem_singleton.mp hw
      exact ⟨d, hd, e, he, rfl, hrehashes e hequivalent⟩
  refine hashing_ask_bind fun s => ?_
  cases hfound : s.entitlements.find? (activeEquivalentEntitlement input) with
  | some e =>
    exact hmerge ⟨_, s⟩ e _ List.mem_cons_self (List.mem_of_find?_eq_some hfound)
      (List.find?_some hfound)
  | none =>
    refine hashing_bind (hashing_commit fun s =>
      ⟨fun f hf => ?_, fun w hw => absurd hw List.not_mem_nil⟩) fun log inserted _ => ?_
    · obtain rfl := List.mem_singleton.mp hf
      exact ⟨hinput, hdistinct, fun w hw => absurd hw List.not_mem_nil⟩
    cases inserted with
    | some inserted => exact trivial
    | none =>
      refine hashing_ask_bind fun s => ?_
      cases hfound : s.entitlements.find? (activeEquivalentEntitlement input) with
      | none => exact trivial
      | some e =>
        exact hmerge ⟨_, s⟩ e _ List.mem_cons_self (List.mem_of_find?_eq_some hfound)
          (List.find?_some hfound)

/-- Each Context of a direct grant has one detail at most. -/
theorem leaves_permissionSelections (resource : ApiResource) (actorUserId : Id)
    (organizationId : Option Id) :
    (permissionSelections resource actorUserId organizationId).Leaves fun found _ =>
      ∀ selection ∈ found.2, (selection.authorizationDetails.map canonicalJson).Nodup := by
  unfold permissionSelections
  split
  · refine (leaves_true (look _)).bind fun found _ _ => ?_
    refine (leaves_true (orThrow _ _)).bind fun connection _ _ => ?_
    split
    · intro selection hselection
      obtain rfl := List.mem_singleton.mp hselection
      exact List.nodup_nil
    · refine (leaves_true (catalogItems _ _ _)).bind fun items _ _ => ?_
      refine (leaves_true (require _ _)).bind fun _ _ _ => ?_
      intro selection hselection
      obtain ⟨item, -, rfl⟩ := List.mem_map.mp hselection
      exact List.nodup_singleton _
  · intro selection hselection
    obtain rfl := List.mem_singleton.mp hselection
    exact List.nodup_singleton _

theorem hashing_createAgentPermission (agentId : Id) (input : CreateAgentPermission)
    (actorUserId : Id) (organizationId : Option Id) (log : AccessLog) :
    Hashing (createAgentPermission agentId input actorUserId organizationId) log := by
  refine hashing_reads_bind (by simp [controlsAgentIdentity]) fun log _ _ => ?_
  refine hashing_reads_bind (by simp) fun log _ _ => ?_
  refine hashing_reads_bind (by simp) fun log _ _ => ?_
  refine hashing_reads_bind (by simp) fun log resource _ => ?_
  refine hashing_reads_bind (by simp) fun log now _ => ?_
  refine hashing_reads_bind (by simp [requireFutureExpiry]) fun log _ _ => ?_
  refine (leaves_permissionSelections resource actorUserId organizationId).obeys_bind
    (sparesHashes_of_reads (by simp)) (fun _ _ _ => hashes_of_spares)
    (fun new selected hdistinct _ => ?_) fun _ _ _ => trivial
  obtain ⟨connectionId, selections⟩ := selected
  refine hashing_reads_bind (by simp) fun log _ _ => ?_
  refine hashing_bind (hashing_collect log fun selection hselection log => ?_)
    fun _ _ _ => trivial
  refine hashing_collect log fun scope _ log => ?_
  refine hashing_reads_bind (by simp) fun log id _ => ?_
  exact hashing_createScopeEntitlement (fun _ _ => rfl)
    (fun _ => hdistinct selection hselection) now log

end Grants

section Others

omit [Locale] in
theorem sparesHashes_revokeTokenLeaseAtTarget (lease : TokenLease) (now : ℕ) (persist : Bool) :
    (revokeTokenLeaseAtTarget lease now persist).SparesHashes :=
  sparesHashes_reads_bind (by simp) fun _ =>
    only_ite.mpr ⟨fun _ => sparesHashes_commit ⟨rfl, rfl⟩, fun _ => trivial⟩

omit [Locale] in
theorem sparesHashes_revokeEntitlementTokenLeases (e : ScopeEntitlement) (now : ℕ) :
    (revokeEntitlementTokenLeases e now).SparesHashes :=
  sparesHashes_reads_bind (by simp) fun _ =>
    only_forEach fun lease => sparesHashes_revokeTokenLeaseAtTarget lease now true

omit [Locale] in
theorem sparesHashes_revokeEntitlementTokenLeasesAtTarget (e : ScopeEntitlement) (now : ℕ) :
    (revokeEntitlementTokenLeasesAtTarget e now).SparesHashes :=
  sparesHashes_reads_bind (by simp) fun _ => sparesHashes_bind
    (only_forEach fun lease => sparesHashes_revokeTokenLeaseAtTarget lease now false)
    fun _ => trivial

omit [Locale] in
theorem sparesHashes_closing (e : ScopeEntitlement) (now : ℕ) (input : AuditInput) :
    (do
      let leaseIds ← revokeEntitlementTokenLeasesAtTarget e now
      let audit ← resourceAuditRecord input
      let _ ← endEntitlementWithAudit e.id .revoked leaseIds now audit
      : Access Unit).SparesHashes :=
  sparesHashes_bind (sparesHashes_revokeEntitlementTokenLeasesAtTarget e now) fun _ =>
    sparesHashes_reads_bind (by simp) fun _ =>
      sparesHashes_bind (sparesHashes_commit ⟨rfl, rfl⟩) fun _ => trivial

omit [Locale] in
theorem sparesHashes_revokeAgentPermission (entitlementId actorUserId : Id) :
    (revokeAgentPermission entitlementId actorUserId).SparesHashes :=
  sparesHashes_reads_bind (by simp) fun ⟨e, _, _⟩ =>
    sparesHashes_reads_bind (by simp) fun now => sparesHashes_closing e now _

omit [Locale] in
theorem sparesHashes_revokeAgentResourceAccess (agentIdentityId : Id) :
    (revokeAgentResourceAccess agentIdentityId).SparesHashes := by
  refine sparesHashes_reads_bind (by simp) fun now => sparesHashes_reads_bind (by simp) fun _ => ?_
  refine only_forEach fun e => ?_
  exact sparesHashes_bind (sparesHashes_revokeEntitlementTokenLeases e now) fun _ =>
    sparesHashes_bind (sparesHashes_commit ⟨rfl, rfl⟩) fun _ => trivial

omit [Locale] in
theorem sparesHashes_revokeResourceConnection (connectionId actorUserId : Id) :
    (revokeResourceConnection connectionId actorUserId).SparesHashes := by
  refine sparesHashes_reads_bind (by simp) fun _ => sparesHashes_reads_bind (by simp) fun _ => ?_
  refine sparesHashes_reads_bind (by simp) fun _ => sparesHashes_reads_bind (by simp) fun _ => ?_
  refine sparesHashes_bind (only_forEach fun e =>
    sparesHashes_revokeAgentPermission e.id actorUserId) fun _ => ?_
  refine sparesHashes_reads_bind (by simp) fun _ => sparesHashes_reads_bind (by simp) fun _ => ?_
  exact sparesHashes_reads_bind (by simp) fun _ => sparesHashes_commit ⟨rfl, rfl⟩

omit [Locale] in
theorem sparesHashes_disconnectProviderConnection (connectionId actorUserId : Id) :
    (disconnectProviderConnection connectionId actorUserId).SparesHashes := by
  refine sparesHashes_reads_bind (by simp) fun _ => sparesHashes_reads_bind (by simp) fun _ => ?_
  refine sparesHashes_reads_bind (by simp) fun _ => sparesHashes_reads_bind (by simp) fun _ => ?_
  refine sparesHashes_reads_bind (by simp) fun _ => ?_
  refine sparesHashes_bind (only_forEach fun c =>
    sparesHashes_revokeResourceConnection c.id actorUserId) fun _ => ?_
  refine sparesHashes_reads_bind (by simp) fun _ => ?_
  exact sparesHashes_reads_bind (by simp) fun _ => sparesHashes_commit ⟨rfl, rfl⟩

omit [Locale] in
theorem sparesHashes_deleteResource (resourceId : Id) (controllerUserId : Option Id) :
    (deleteResource resourceId controllerUserId).SparesHashes := by
  refine sparesHashes_reads_bind (by simp) fun _ => sparesHashes_reads_bind (by simp) fun _ => ?_
  refine sparesHashes_reads_bind (by simp) fun _ => sparesHashes_reads_bind (by simp) fun _ => ?_
  refine sparesHashes_reads_bind (by simp) fun _ => sparesHashes_reads_bind (by simp) fun _ => ?_
  exact sparesHashes_reads_bind (by simp) fun _ => sparesHashes_commit ⟨rfl, rfl⟩

theorem sparesHashes_storeTokenLease (c : IssuanceContext) (connection : Option ResourceConnection)
    (token : AccessToken) (jkt : String) (expiresAt now : ℕ) :
    (storeTokenLease c connection token jkt expiresAt now).SparesHashes :=
  sparesHashes_reads_bind (by simp) fun _ => sparesHashes_reads_bind (by simp) fun _ =>
    sparesHashes_bind (sparesHashes_commit ⟨rfl, rfl⟩) fun _ => sparesHashes_of_reads (by simp)

theorem sparesHashes_issueNativeAccessToken (c : IssuanceContext) (proof : TokenProof) :
    (issueNativeAccessToken c proof).SparesHashes := by
  refine sparesHashes_reads_bind (by simp) fun _ => sparesHashes_reads_bind (by simp) fun _ => ?_
  refine sparesHashes_reads_bind (by simp) fun _ => sparesHashes_reads_bind (by simp) fun _ => ?_
  refine sparesHashes_reads_bind (by simp) fun _ => sparesHashes_reads_bind (by simp) fun _ => ?_
  refine sparesHashes_reads_bind (by simp) fun _ => sparesHashes_reads_bind (by simp) fun _ => ?_
  exact sparesHashes_bind (sparesHashes_storeTokenLease _ _ _ _ _ _) fun _ => trivial

theorem sparesHashes_issueExternalAccessToken (c : IssuanceContext)
    (connection : Option ResourceConnection) (proof : TokenProof) (now : ℕ) :
    (issueExternalAccessToken c connection proof now).SparesHashes := by
  refine sparesHashes_reads_bind (by simp) fun _ => ?_
  refine sparesHashes_reads_bind (by simp) fun ⟨authorization, credential⟩ => ?_
  refine sparesHashes_reads_bind (by simp) fun _ => ?_
  refine sparesHashes_reads_bind (by simp [refreshConnectionToken]) fun _ => ?_
  refine sparesHashes_reads_bind (by simp) fun _ => sparesHashes_reads_bind (by simp) fun _ => ?_
  refine sparesHashes_reads_bind (by simp) fun _ => sparesHashes_reads_bind (by simp) fun _ => ?_
  refine sparesHashes_reads_bind (by simp) fun _ => ?_
  exact sparesHashes_bind (sparesHashes_storeTokenLease _ _ _ _ _ _) fun _ => trivial

theorem sparesHashes_issueTargetAccessToken (requestId : Id) (proof : TokenProof)
    (principal : AgentResourcePrincipal) :
    (issueTargetAccessToken requestId proof principal).SparesHashes := by
  refine sparesHashes_reads_bind (by simp [findApprovedAccessRequest]) fun _ => ?_
  refine sparesHashes_reads_bind (by simp) fun _ => sparesHashes_reads_bind (by simp) fun _ => ?_
  refine sparesHashes_reads_bind (by simp) fun _ => ?_
  refine sparesHashes_reads_bind (by simp [requireIssuableResource]) fun _ => ?_
  refine sparesHashes_reads_bind (by simp) fun _ => only_ite.mpr ⟨fun _ => ?_, fun _ => ?_⟩
  · exact sparesHashes_issueExternalAccessToken _ _ _ _
  · exact sparesHashes_reads_bind (by simp) fun _ => sparesHashes_issueNativeAccessToken _ _

end Others

section Program

theorem hashing_then {p : Access α} {reply : α → Reply} {log : AccessLog} (h : Hashing p log) :
    Hashing (p >>= fun a => done (reply a)) log := hashing_bind h fun _ _ _ => trivial

theorem hashing_spares_then {p : Access α} {reply : α → Reply} {log : AccessLog}
    (h : p.SparesHashes) : Hashing (p >>= fun a => done (reply a)) log :=
  hashing_then (hashing_of_spares h log)

theorem hashing_program (call : Call) : Hashing call.program [] := by
  cases call with
  | createAgentAccessRequest agent input =>
    exact hashing_reads_bind (by simp) fun log principal _ =>
      hashing_then (hashing_createAgentAccessRequest input principal log)
  | decideAgentAccessRequest requestId input actorUserId =>
    exact hashing_then (hashing_decideAttempts requestId input actorUserId none 2 [])
  | createAgentPermission agentId input actorUserId organizationId =>
    exact hashing_then (hashing_createAgentPermission agentId input actorUserId organizationId [])
  | createScopeEntitlement input now =>
    refine hashing_ite' (fun h => ?_) trivial
    have huser : input.agentIdentityId.isSome ≠ true := by simpa using h.1
    exact hashing_then (hashing_createScopeEntitlement (fun hagent => absurd hagent huser)
      (fun hagent => absurd hagent huser) now [])
  | issueTargetAccessToken requestId proof agent =>
    exact hashing_reads_bind (by simp) fun log principal _ =>
      hashing_spares_then (sparesHashes_issueTargetAccessToken requestId proof principal)
  | revokeAgentPermission entitlementId actorUserId =>
    exact hashing_spares_then (sparesHashes_revokeAgentPermission entitlementId actorUserId)
  | revokeAgentResourceAccess agentIdentityId =>
    exact hashing_spares_then (sparesHashes_revokeAgentResourceAccess agentIdentityId)
  | revokeAgentResourceLeasesForBinding bindingId =>
    refine hashing_spares_then (sparesHashes_reads_bind (by simp) fun now => ?_)
    exact sparesHashes_reads_bind (by simp) fun _ =>
      only_forEach fun lease => sparesHashes_revokeTokenLeaseAtTarget lease now true
  | revokeUncoveredEntitlements connectionId required controllerUserId =>
    refine hashing_reads_bind (by simp) fun log _ _ =>
      hashing_reads_bind (by simp) fun log _ _ => ?_
    refine hashing_reads_bind (by simp) fun log now _ => hashing_spares_then ?_
    exact sparesHashes_reads_bind (by simp) fun _ =>
      only_forEach fun e => sparesHashes_closing e now _
  | revokeResourceConnection connectionId actorUserId =>
    exact hashing_spares_then (sparesHashes_revokeResourceConnection connectionId actorUserId)
  | disconnectProviderConnection connectionId actorUserId =>
    exact hashing_spares_then (sparesHashes_disconnectProviderConnection connectionId actorUserId)
  | resetConnector connectorId =>
    refine hashing_spares_then (sparesHashes_reads_bind (by simp) fun now => ?_)
    exact sparesHashes_reads_bind (by simp) fun _ => sparesHashes_commit ⟨rfl, rfl⟩
  | deleteResource resourceId controllerUserId =>
    exact hashing_spares_then (sparesHashes_deleteResource resourceId controllerUserId)
  | endEntitlementsById ids =>
    exact hashing_reads_bind (by simp) fun log now _ =>
      hashing_spares_then (sparesHashes_commit ⟨rfl, rfl⟩)
  | elapse milliseconds => exact fun s => ⟨hashes_of_spares ⟨rfl, rfl⟩, trivial⟩
  | outside world => exact fun s => ⟨hashes_of_spares ⟨rfl, rfl⟩, trivial⟩
  | administer change => exact fun s => ⟨hashes_of_spares ⟨rfl, rfl⟩, trivial⟩

theorem ScopeEntitlement.Persists.hashed {e f : ScopeEntitlement} (h : e.Persists f)
    {hash : Digest String}
    (he : ({ e with authorizationContextHash := hash } : ScopeEntitlement).Hashed) :
    ({ f with authorizationContextHash := hash } : ScopeEntitlement).Hashed := by
  intro hagent hlength
  have hagent' : e.agentIdentityId.isSome = true := h.agentIdentityId ▸ hagent
  have hhash := he hagent' (h.authorizationDetails ▸ hlength)
  change hash = contextHash f.authorizationDetails
  rw [h.authorizationDetails]
  exact hhash

/-- Entitlements that have right hashes still have them after an operation. -/
theorem hashed_perform {op : Operation} {s : Store}
    (hinserts : ∀ e ∈ op.inserts, e.Hashed ∧ ∀ w ∈ op.hashes, e.authorizationContextHash = w.2)
    (hwrites : ∀ w ∈ op.hashes, ∀ e ∈ s.entitlements, e.id = w.1 →
      ({ e with authorizationContextHash := w.2 } : ScopeEntitlement).Hashed)
    (hs : ∀ e ∈ s.entitlements, e.Hashed) : ∀ e ∈ (op.perform s).entitlements, e.Hashed := by
  have hrespects : op.Respects fun e => e.Hashed ∧ ∀ w ∈ op.hashes, e.id = w.1 →
      ({ e with authorizationContextHash := w.2 } : ScopeEntitlement).Hashed := by
    refine ⟨fun e reason now he => he, fun e he => he, fun e requestId he => he,
      fun e he => ⟨(hinserts e he).1, fun w hw _ => ?_⟩,
      fun w hw e lifetime he hid => ⟨he.2 w hw hid, he.2⟩⟩
    rw [← (hinserts e he).2 w hw]
    exact (hinserts e he).1
  intro e he
  exact (rowsKeep_perform hrespects s (fun e he => ⟨hs e he, fun w hw => hwrites w hw e he⟩) e he).1

/-- In every store of a run, the entitlements of Agents have the hashes of their Contexts. -/
theorem hashed_of_reachable {pool : AccessPool} (h : AccessReachable pool) :
    ∀ e ∈ pool.store.entitlements, e.Hashed := by
  refine h.keeps_past (I := fun s past => ∀ u ∈ s :: past, ∀ e ∈ u.entitlements, e.Hashed)
    (fun s hs u hu e he => ?_) (fun pool i t op hpool _ hpending hkept => ?_)
    pool.store List.mem_cons_self
  · obtain rfl := List.mem_singleton.mp hu
    rw [hs.entitlements] at he
    cases he
  · obtain ⟨ht, hinserts, hwrites⟩ := hpool.pending_obeys hashing_program hpending
    rw [List.forall_mem_cons]
    refine ⟨hashed_perform (fun e he => ⟨(hinserts e he).1, (hinserts e he).2.2⟩)
      (fun w hw e he hid => ?_) (hkept _ List.mem_cons_self), hkept⟩
    obtain ⟨d, hd, e₀, he₀, hid₀, hrehashed⟩ := hwrites w hw
    have hbefore := hkept _ (List.mem_cons_of_mem _ (hpool.before_mem_past t ht d hd)) e₀ he₀
    have hpersists : e₀.Persists e :=
      (hpool.evolves_before persists_evolution ht hd).entitlements.of_mem_of_key_eq
        (fun _ _ hp => hp.id) (AccessReachable.valid hpool).entitlements.1 he₀ he
          (hid.trans hid₀.symm)
    exact hpersists.hashed (hrehashed hbefore)

/-- In every store of a run, the details of an Agent's entitlement differ from each other. -/
theorem distinctDetails_of_reachable {pool : AccessPool} (h : AccessReachable pool) :
    ∀ e ∈ pool.store.entitlements, e.DistinctDetails := by
  refine h.keeps_past (I := fun s _ => ∀ e ∈ s.entitlements, e.DistinctDetails)
    (fun s hs e he => ?_) (fun pool i t op hpool _ hpending hkept => ?_)
  · rw [hs.entitlements] at he
    cases he
  · obtain ⟨_, hinserts, _⟩ := hpool.pending_obeys hashing_program hpending
    have hrespects : op.Respects ScopeEntitlement.DistinctDetails :=
      ⟨fun _ _ _ he => he, fun _ he => he, fun _ _ he => he, fun e he => (hinserts e he).2.1,
        fun _ _ _ _ he _ => he⟩
    exact rowsKeep_perform hrespects pool.store hkept

end Program

end FlareAuth
