import FlareAuth.AccessContract
import FlareAuth.AccessFrames

/-!
# Token leases

The batch that inserts a lease, and what stands behind every lease which any
interleaving of calls ever inserts. The guard of the insert sees the store of
its own moment; what it does not check was read earlier by the same call and
cannot have changed since.
-/

namespace FlareAuth

open Concurrent Procedure Relational Repository Statement

namespace Store

/-- The guard of the insert holds and no unique index refuses the row. -/
def Admits (s : Store) (i : Issuance) : Prop :=
  (s.findAccessRequest i.lease.requestId).any (s.leaseInsertable i.lease i.boundary) = true ∧
    ∀ l ∈ s.leases, l.id ≠ i.lease.id ∧ l.tokenHash ≠ i.lease.tokenHash

def issued (s : Store) (i : Issuance) : Store :=
  { s with
    leases := s.leases ++ [i.lease]
    requests := updateWhere (fun r => r.id == i.lease.requestId && r.status == .approved)
      (fun r => { r with status := .consumed }) s.requests
    entitlements := updateWhere
      (fun e => i.consumeEntitlementIds.contains e.id && e.ended.isNone)
      (·.finish .consumed i.now) s.entitlements
    audits := s.audits ++ [i.audit] }

end Store

section Batch

variable {i : Issuance} {s : Store}

theorem findTokenLease_append (s : Store) (l : TokenLease) :
    ∃ l', lookup TokenLease.id l.id (s.leases ++ [l]) = some l' :=
  lookup_isSome_of_mem (List.mem_append_right _ List.mem_cons_self)

/-- An admitted issuance inserts the lease, consumes and writes the audit in one batch. -/
theorem issueTokenLeaseWithAudit_of_admits (h : s.Admits i) :
    issueTokenLeaseWithAudit i s = .ok (some i.lease, s.issued i) := by
  have hclash : (s.leases.any fun l => l.id == i.lease.id || l.tokenHash == i.lease.tokenHash) =
      false := by
    rw [List.any_eq_false]
    intro l hl
    simp [h.2 l hl]
  have hinsert : insertTokenLease i.lease i.boundary s =
      .ok (some i.lease, { s with leases := s.leases ++ [i.lease] }) := by
    unfold insertTokenLease
    rw [if_pos h.1, if_neg (by simp [hclash])]
  obtain ⟨l, hl⟩ := findTokenLease_append s i.lease
  have hsome : (lookup TokenLease.id i.lease.id (s.leases ++ [i.lease])).isSome = true := by
    rw [hl]
    rfl
  unfold issueTokenLeaseWithAudit
  rw [Batch.bind_of_ok hinsert]
  simp only [consumeAccessRequest, consumeEntitlements, insertAudit, Batch.modify, bind, pure,
    Store.findTokenLease, hsome, if_true, Store.issued]

/-- An issuance whose guard fails changes nothing, if its lease is new. -/
theorem issueTokenLeaseWithAudit_of_refused
    (h : (s.findAccessRequest i.lease.requestId).any (s.leaseInsertable i.lease i.boundary) = false)
    (hfresh : s.findTokenLease i.lease.id = none) :
    issueTokenLeaseWithAudit i s = .ok (none, s) := by
  have hinsert : insertTokenLease i.lease i.boundary s = .ok (none, s) := by
    unfold insertTokenLease
    rw [if_neg (by simp [h])]
  unfold issueTokenLeaseWithAudit
  rw [Batch.bind_of_ok hinsert]
  simp [consumeAccessRequest, consumeEntitlements, insertAudit, Batch.modify, bind, pure, hfresh]

/-- An issuance which a unique index refuses fails as a whole. -/
theorem issueTokenLeaseWithAudit_of_clash
    (h : (s.findAccessRequest i.lease.requestId).any (s.leaseInsertable i.lease i.boundary) = true)
    (hclash : (s.leases.any fun l =>
      l.id == i.lease.id || l.tokenHash == i.lease.tokenHash) = true) :
    issueTokenLeaseWithAudit i s = .error uniqueViolation := by
  have hinsert : insertTokenLease i.lease i.boundary s = .error uniqueViolation := by
    unfold insertTokenLease
    rw [if_pos h, if_pos hclash]
  unfold issueTokenLeaseWithAudit
  simp only [bind, hinsert]

def KeepsLeases (s t : Store) : Prop := t.leases = s.leases

theorem KeepsLeases.refl (s : Store) : KeepsLeases s s := rfl

theorem KeepsLeases.trans {s t u : Store} (h : KeepsLeases s t) (h' : KeepsLeases t u) :
    KeepsLeases s u := Eq.trans h' h

/-- What is left of an issuance whose insert selected no row. -/
theorem keepsLeases_rest (i : Issuance) :
    Batch.Within KeepsLeases (do
      consumeAccessRequest i.lease.requestId i.lease.id
      consumeEntitlements i.consumeEntitlementIds i.lease.id i.now
      insertAudit i.audit fun s => (s.findTokenLease i.lease.id).isSome
      return none : StoreBatch (Option TokenLease)) := by
  have htrans : ∀ s t u, KeepsLeases s t → KeepsLeases t u → KeepsLeases s u := fun _ _ _ => .trans
  refine .bind htrans (.modify fun s => ?_) fun _ => .bind htrans (.modify fun s => ?_) fun _ =>
    .bind htrans (.modify fun s => ?_) fun _ => .pure .refl _
  all_goals
    split
    · rfl
    · rfl

/-- An issuance either takes effect as a whole or inserts no lease. -/
theorem issueTokenLease_cases (i : Issuance) (s : Store) :
    (s.Admits i ∧ (issueTokenLeaseWithAudit i).settle s = s.issued i) ∨
      (¬s.Admits i ∧ ((issueTokenLeaseWithAudit i).settle s).leases = s.leases) := by
  by_cases h : s.Admits i
  · exact .inl ⟨h, Batch.settle_of_ok (issueTokenLeaseWithAudit_of_admits h)⟩
  refine .inr ⟨h, ?_⟩
  by_cases hguard :
      (s.findAccessRequest i.lease.requestId).any (s.leaseInsertable i.lease i.boundary) = true
  · have hclash : (s.leases.any fun l =>
        l.id == i.lease.id || l.tokenHash == i.lease.tokenHash) = true := by
      by_contra hno
      refine h ⟨hguard, fun l hl => ?_⟩
      have hl' := List.any_eq_false.mp (Bool.eq_false_iff.mpr hno) l hl
      simpa using hl'
    rw [Batch.settle_of_error (issueTokenLeaseWithAudit_of_clash hguard hclash)]
  · have hinsert : insertTokenLease i.lease i.boundary s = .ok (none, s) := by
      unfold insertTokenLease
      rw [if_neg hguard]
    have hrest := (keepsLeases_rest i).settle .refl s
    unfold Batch.settle at hrest ⊢
    unfold issueTokenLeaseWithAudit
    rwa [Batch.bind_of_ok hinsert]

end Batch

/-- A lease that is there after an operation was there before, or the operation issued it. -/
theorem mem_leases_perform {op : Operation} {s : Store} {l : TokenLease}
    (h : l ∈ (op.perform s).leases) :
    (∃ l₀ ∈ s.leases, l₀.Persists l) ∨
      ∃ i, op = .issueTokenLease i ∧ s.Admits i ∧ l = i.lease := by
  by_cases hissues : op.Issues
  · cases op with
    | issueTokenLease i =>
      rw [Operation.perform] at h
      rcases issueTokenLease_cases i s with ⟨hadmits, hstore⟩ | ⟨_, hleases⟩
      · rw [hstore, Store.issued, List.mem_append, List.mem_singleton] at h
        rcases h with h | rfl
        · exact .inl ⟨l, h, .refl l⟩
        · exact .inr ⟨i, rfl, hadmits, rfl⟩
      · rw [hleases] at h
        exact .inl ⟨l, h, .refl l⟩
    | _ => exact hissues.elim
  · have hevolves := (precedes_perform op s).persists.leases
    exact .inl (hevolves.exists_of_mem_later (sameLeases_perform hissues s) h)

def Store.LeasesRequested (s : Store) : Prop :=
  ∀ l ∈ s.leases, ∃ r ∈ s.requests, r.id = l.requestId

theorem leasesRequested_perform {op : Operation} {s : Store} (h : s.LeasesRequested) :
    (op.perform s).LeasesRequested := by
  intro l hl
  have hevolves := (precedes_perform op s).persists.requests
  have hlater : ∀ r ∈ s.requests, r.id = l.requestId →
      ∃ r ∈ (op.perform s).requests, r.id = l.requestId := by
    intro r hr hid
    obtain ⟨r', hr', hpersists⟩ := hevolves.exists_of_mem hr
    exact ⟨r', hr', hpersists.id.trans hid⟩
  rcases mem_leases_perform hl with ⟨l₀, hl₀, hpersists⟩ | ⟨i, _, hadmits, rfl⟩
  · obtain ⟨r, hr, hid⟩ := h l₀ hl₀
    exact hlater r hr (hid.trans hpersists.requestId.symm)
  · obtain ⟨r, hr, _⟩ := (Option.any_eq_true _ _).mp hadmits.1
    exact hlater r (mem_of_lookup hr) (key_of_lookup hr)

theorem nextId_inj {s t : Store} (h : s.nextId = t.nextId) : s.generated = t.generated :=
  Text.toString_inj ((String.append_right_inj _).mp h)

theorem generated_evolution : Evolution Operation fun s t : Store => s.generated ≤ t.generated :=
  ⟨fun _ => le_rfl, fun _ _ _ => le_trans, fun op s => (precedes_perform op s).persists.generated⟩

section Fresh

variable [Locale] {pool : AccessPool}

theorem issued_of_pending (h : AccessReachable pool) {t : Thread Call Store Operation Failure Reply}
    (ht : t ∈ pool.threads) {i : Issuance} {after : Store → Access Reply}
    (hrest : t.rest = .step (.issueTokenLease i) after) : ∃ c, Issued t.log i c := by
  have hleft := (h.obeys program_contract t ht).2
  rw [hrest] at hleft
  exact (hleft pool.store).1

/-- The identifier of an issuance that is still to come is not the identifier of any lease. -/
theorem fresh_of_pending (h : AccessReachable pool) {k : ℕ}
    {t : Thread Call Store Operation Failure Reply} (ht : pool.threads[k]? = some t)
    {i : Issuance} {after : Store → Access Reply}
    (hrest : t.rest = .step (.issueTokenLease i) after) :
    pool.store.findTokenLease i.lease.id = none := by
  have htmem := List.mem_of_getElem? ht
  obtain ⟨c, hissued⟩ := issued_of_pending h htmem hrest
  obtain ⟨s, earlier, hread, hid⟩ := hissued.generated
  rw [Store.findTokenLease, Relational.lookup, List.find?_eq_none]
  intro l hl hkey
  have hcause := h.cause (P := fun s => ∃ l ∈ s.leases, l.id = i.lease.id)
    (fun s hs => by simp [hs.leases]) ⟨l, hl, by simpa using hkey⟩
  obtain ⟨u, hu, e, he, hbefore, l', hl', hid'⟩ := hcause
  obtain ⟨i', hop, rfl⟩ : ∃ i', e.operation = .issueTokenLease i' ∧ i'.lease = l' := by
    rcases mem_leases_perform hl' with ⟨l₀, hl₀, hpersists⟩ | ⟨i', hop, _, rfl⟩
    · exact absurd ⟨l₀, hl₀, hpersists.id.symm.trans hid'⟩ hbefore
    · exact ⟨i', hop, rfl⟩
  obtain ⟨earlier', later', hlog', hjustified⟩ := (h.logged program_contract hu).of_mem he
  rw [hop] at hjustified
  obtain ⟨c', hissued'⟩ := hjustified
  obtain ⟨s', earlier'', hread', hgen'⟩ := hissued'.generated
  have hstamp : s.generated = s'.generated := nextId_inj (hid.symm.trans (hid'.symm.trans hgen'))
  have hg : ⟨.generateId, s⟩ ∈ t.log := hread.subset List.mem_cons_self
  have hg' : ⟨.generateId, s'⟩ ∈ earlier' := hread'.subset List.mem_cons_self
  obtain ⟨j, hj⟩ := List.mem_iff_getElem?.mp hu
  by_cases hkj : k = j
  · subst hkj
    obtain rfl : t = u := Option.some.inj (ht.symm.trans hj)
    -- the later issuance follows its own identifier, with nothing but reads in between
    obtain ⟨new, hlog, hnew⟩ := hread
    have hne : (⟨.generateId, s⟩ : Event Store Operation) ≠ e := by
      rintro rfl
      cases hop
    have hnot : e ∉ new := by
      intro hmem
      have hisRead := hnew e hmem
      rw [hop] at hisRead
      exact hisRead
    obtain ⟨us, hus⟩ := Log.split (hlog.symm.trans hlog') hne hnot
    have hmem : (⟨.generateId, s'⟩ : Event Store Operation) ∈ earlier := by
      rw [hus]
      exact List.mem_append_right _ (List.mem_cons_of_mem _ hg')
    have hlt : s'.generated + 1 ≤ s.generated :=
      h.evolves_between generated_evolution htmem hlog hmem
    omega
  · have hmem : (⟨.generateId, s'⟩ : Event Store Operation) ∈ u.log := by
      rw [hlog']
      exact List.mem_append_right _ (List.mem_cons_of_mem _ hg')
    have hmoves : ∀ (op : Operation) (s : Store), op = .generateId →
        s.generated < (apply op s).generated := by
      rintro _ s rfl
      exact Nat.lt_succ_self _
    exact h.stamp_ne generated_evolution hmoves hkj ht hj hg hmem rfl rfl hstamp

end Fresh

theorem mem_listActiveEntitlementsByAgent {s : Store} {agentIdentityId : Id} {now : ℕ}
    {e : ScopeEntitlement} : e ∈ s.listActiveEntitlementsByAgent agentIdentityId now ↔
      e ∈ s.entitlements ∧ e.agentIdentityId = some agentIdentityId ∧ e.active now = true := by
  rw [Store.listActiveEntitlementsByAgent, mem_byCreation, List.mem_filter, decide_eq_true_eq]

section Backing

variable [Locale]

namespace Issued

variable {log : AccessLog} {i : Issuance} {c : IssuanceContext} (h : Issued log i c)

include h

theorem boundary : i.boundary = c.boundary := congrArg Issuance.boundary h.issuance

theorem consumed : i.consumeEntitlementIds = c.consumed :=
  congrArg Issuance.consumeEntitlementIds h.issuance

theorem now : i.now = i.lease.createdAt := congrArg Issuance.now h.issuance

theorem requestId : i.lease.requestId = c.request.id := congrArg TokenLease.requestId h.lease

theorem entitlementIds : i.lease.entitlementIds = c.entitlements.map (·.id) :=
  congrArg TokenLease.entitlementIds h.lease

theorem scopes : i.lease.scopes = c.scopes := congrArg TokenLease.scopes h.lease

end Issued

def Store.current (s : Store) (e : ScopeEntitlement) : ScopeEntitlement :=
  (s.findEntitlement e.id).getD e

structure ScopeEntitlement.Backs (e : ScopeEntitlement) (request : AgentAccessRequest) (now : ℕ) :
    Prop where
  active : e.active now = true
  agent : e.agentIdentityId = some request.agentIdentityId
  resource : e.resourceServerId = request.resourceId
  connection : e.connectionId = request.connectionId
  context : e.authorizationContextHash = contextHash request.authorizationDetails
  details : exactAuthorizationDetails e.authorizationDetails request.authorizationDetails = true

/-- A request and the entitlements of a store that back a lease at a time. -/
structure TokenLease.Backed (l : TokenLease) (s : Store) (now : ℕ) (request : AgentAccessRequest)
    (entitlements : List ScopeEntitlement) : Prop where
  found : s.findAccessRequest l.requestId = some request
  decided : request.status = .approved ∨ request.status = .consumed
  rows : l.entitlementIds.map s.findEntitlement = entitlements.map some
  backs : ∀ e ∈ entitlements, e.Backs request now
  scopes : l.scopes = Text.sort (entitlements.map (·.scope))

variable {pool : AccessPool} {t : Thread Call Store Operation Failure Reply}

theorem AccessReachable.valid (h : AccessReachable pool) : pool.store.Valid :=
  h.invariant (fun _ => Store.Fresh.valid) (fun op s => (precedes_perform op s).valid) pool.store
    List.mem_cons_self

/-- What a call read of a request is still true of it. -/
theorem request_of_read (h : AccessReachable pool) (ht : t ∈ pool.threads)
    {d : Event Store Operation} (hd : d ∈ t.log) {id : Id} {r : AgentAccessRequest}
    (hr : d.before.findAccessRequest id = some r) :
    ∃ r', pool.store.findAccessRequest id = some r' ∧ r.Persists r' :=
  (h.evolves_before persists_evolution ht hd).requests.lookup (fun _ _ hp => hp.id) hr

/-- What a call read of an entitlement is still true of it. -/
theorem entitlement_of_read (h : AccessReachable pool) (ht : t ∈ pool.threads)
    {d : Event Store Operation} (hd : d ∈ t.log) {e : ScopeEntitlement}
    (he : e ∈ d.before.entitlements) :
    pool.store.findEntitlement e.id = some (pool.store.current e) ∧
      e.Persists (pool.store.current e) := by
  have hevolves := (h.evolves_before persists_evolution ht hd).entitlements
  obtain ⟨e', he', hpersists⟩ := hevolves.exists_of_mem he
  have hfound : pool.store.findEntitlement e.id = some e' := by
    rw [← hpersists.id]
    exact lookup_of_mem h.valid.entitlements.1 he'
  have hcurrent : pool.store.current e = e' := by
    rw [Store.current, hfound, Option.getD_some]
  rw [hcurrent]
  exact ⟨hfound, hpersists⟩

theorem mem_contextEntitlements {request : AgentAccessRequest} {active : List ScopeEntitlement}
    {e : ScopeEntitlement} : e ∈ contextEntitlements request active ↔ e ∈ active ∧
      e.resourceServerId = request.resourceId ∧ e.connectionId = request.connectionId ∧
      exactAuthorizationDetails e.authorizationDetails request.authorizationDetails = true := by
  rw [contextEntitlements, mem_sortByScope, List.mem_filter, Bool.and_eq_true, Bool.and_eq_true,
    beq_iff_eq, beq_iff_eq, and_assoc]

/-- What an issuance read of the entitlements that it names. -/
theorem Backed.read {log : AccessLog} {c : IssuanceContext} (h : Backed log c)
    {e : ScopeEntitlement} (he : e ∈ c.entitlements) :
    (∃ d ∈ log, e ∈ d.before.entitlements) ∧ e.agentIdentityId = some c.request.agentIdentityId ∧
      exactAuthorizationDetails e.authorizationDetails c.request.authorizationDetails = true := by
  obtain ⟨d, hd, now, _, hread⟩ := h.entitlements
  rw [hread, mem_contextEntitlements, mem_listActiveEntitlementsByAgent] at he
  obtain ⟨⟨hmem, hagent, _⟩, _, _, hdetails⟩ := he
  refine ⟨⟨d, hd, hmem⟩, ?_, hdetails⟩
  rw [hagent, h.agent]

/-- The guard of the insert and the reads of the call together back the lease. -/
theorem backed_of_admits (h : AccessReachable pool) (ht : t ∈ pool.threads) {i : Issuance}
    {c : IssuanceContext} (hissued : Issued t.log i c) (hadmits : pool.store.Admits i) :
    ∃ request, i.lease.Backed pool.store i.lease.createdAt request
      (c.entitlements.map pool.store.current) ∧ c.request.Persists request := by
  have hbacked := hissued.backed
  obtain ⟨d, hd, hrequest⟩ := hbacked.request
  obtain ⟨request, hfound, hpersists⟩ := request_of_read h ht hd hrequest
  have hguard := hadmits.1
  rw [hissued.requestId, hfound, Option.any_some, hissued.boundary] at hguard
  simp only [Store.leaseInsertable, Bool.and_eq_true, Bool.or_eq_true, beq_iff_eq,
    List.all_eq_true] at hguard
  obtain ⟨⟨⟨⟨⟨⟨⟨⟨hdecided, _⟩, _⟩, hconn⟩, _⟩, hsupplied⟩, _⟩, _⟩, _⟩ := hguard
  have hpending : c.request.status ≠ .pending := by
    rcases hbacked.decided with hs | hs <;> simp [hs]
  have hdetails := hpersists.authorizationDetails hpending
  refine ⟨request, ⟨?_, hdecided, ?_, ?_, ?_⟩, hpersists⟩
  · rw [hissued.requestId, hfound]
  · rw [hissued.entitlementIds, List.map_map, List.map_map]
    refine List.map_congr_left fun e he => ?_
    obtain ⟨⟨d', hd', hmem⟩, _⟩ := hbacked.read he
    exact (entitlement_of_read h ht hd' hmem).1
  · intro e he
    obtain ⟨e₀, he₀, rfl⟩ := List.mem_map.mp he
    obtain ⟨⟨d', hd', hmem⟩, hagent, hexact⟩ := hbacked.read he₀
    obtain ⟨hcurrent, hsame⟩ := entitlement_of_read h ht hd' hmem
    have hid : e₀.id ∈ i.lease.entitlementIds := by
      rw [hissued.entitlementIds]
      exact List.mem_map_of_mem he₀
    have hholds := hsupplied e₀.id hid
    simp only [Store.suppliedEntitlementHolds, hcurrent, Option.elim_some, Bool.and_eq_true,
      beq_iff_eq] at hholds
    obtain ⟨⟨⟨⟨⟨_, hresource⟩, hconnection⟩, hhash⟩, hactive⟩, _⟩ := hholds
    refine ⟨hactive, ?_, ?_, ?_, ?_, ?_⟩
    · rw [hsame.agentIdentityId, hagent, hpersists.agentIdentityId]
    · rw [hresource, hpersists.resourceId]
      rfl
    · rw [hconnection, hconn]
    · rw [hhash, hdetails]
      rfl
    · rw [hsame.authorizationDetails, hdetails]
      exact hexact
  · rw [hissued.scopes, IssuanceContext.scopes, List.map_map]
    congr 1
    refine List.map_congr_left fun e he => ?_
    obtain ⟨⟨d', hd', hmem⟩, _⟩ := hbacked.read he
    exact (entitlement_of_read h ht hd' hmem).2.scope.symm

end Backing

def Inserts (e : Event Store Operation) (l : TokenLease) : Prop :=
  (∃ i, e.operation = .issueTokenLease i ∧ i.lease = l) ∧
    (apply e.operation e.before).leases = e.before.leases ++ [l]

theorem Inserts.admits {e : Event Store Operation} {l : TokenLease} (h : Inserts e l) :
    ∃ i, e.operation = .issueTokenLease i ∧ i.lease = l ∧ e.before.Admits i := by
  obtain ⟨⟨i, hop, hlease⟩, hleases⟩ := h
  refine ⟨i, hop, hlease, ?_⟩
  rcases issueTokenLease_cases i e.before with ⟨hadmits, _⟩ | ⟨_, hsame⟩
  · exact hadmits
  · rw [hop, apply_eq, Operation.perform, hsame] at hleases
    have hlength := congrArg List.length hleases
    simp at hlength

section Soundness

variable [Locale]

/-- Every lease that is there was inserted by some operation of some call. -/
theorem inserted_of_mem {pool : AccessPool} (h : AccessReachable pool) {l : TokenLease}
    (hl : l ∈ pool.store.leases) :
    ∃ t ∈ pool.threads, ∃ e ∈ t.log, ∃ l₀, Inserts e l₀ ∧ l₀.Persists l := by
  have hcause := h.cause (P := fun s => ∃ l' ∈ s.leases, l'.id = l.id)
    (fun s hs => by simp [hs.leases]) ⟨l, hl, rfl⟩
  obtain ⟨t, ht, e, he, hbefore, l₀, hl₀, hid⟩ := hcause
  rcases mem_leases_perform hl₀ with ⟨l₁, hl₁, hpersists⟩ | ⟨i, hop, hadmits, rfl⟩
  · exact absurd ⟨l₁, hl₁, hpersists.id.symm.trans hid⟩ hbefore
  · refine ⟨t, ht, e, he, i.lease, ⟨⟨i, hop, rfl⟩, ?_⟩, ?_⟩
    · rw [hop, apply_eq, Operation.perform,
        Batch.settle_of_ok (issueTokenLeaseWithAudit_of_admits hadmits)]
      rfl
    · have hevolves := ((h.evolves persists_evolution t ht).2 e he).leases
      exact hevolves.of_mem_of_key_eq (fun _ _ hp => hp.id) h.valid.leases hl₀ hl hid.symm

/-- Every lease was inserted by some issuance, and behind every inserted lease stand a decided
request and exactly the active entitlements of its Context. -/
theorem tokenLeases_sound {pool : AccessPool} (h : AccessReachable pool) :
    (∀ l ∈ pool.store.leases, ∃ t ∈ pool.threads, ∃ e ∈ t.log, ∃ l₀, Inserts e l₀ ∧
      l₀.Persists l) ∧
    ∀ t ∈ pool.threads, ∀ e earlier later l, t.log = later ++ e :: earlier → Inserts e l →
      (∃ d ∈ earlier, d.operation = .read .clock ∧ l.createdAt = d.before.now) ∧
      (∃ request entitlements, l.Backed e.before l.createdAt request entitlements) ∧
      ∃ d ∈ earlier, ∃ agentIdentityId now,
        d.operation = .read (.entitlementsByAgent agentIdentityId now) ∧
        ∀ id ∈ l.entitlementIds, ∃ x ∈ d.before.listActiveEntitlementsByAgent agentIdentityId now,
          x.id = id ∧ ∀ expiry, x.expiresAt = some expiry → l.expiresAt ≤ expiry := by
  constructor
  · exact fun l hl => inserted_of_mem h hl
  · intro t ht e earlier later l hlog hinserts
    obtain ⟨i, hop, rfl, hadmits⟩ := hinserts.admits
    obtain ⟨pool₀, k, t₀, after, hreach, _, hk, _, hlog₀, hrest, hstore, _⟩ := h.of_log ht hlog
    rw [hop] at hrest
    have ht₀ := List.mem_of_getElem? hk
    obtain ⟨c, hissued⟩ := issued_of_pending hreach ht₀ hrest
    rw [← hstore] at hadmits ⊢
    obtain ⟨request, hbacked, _⟩ := backed_of_admits hreach ht₀ hissued hadmits
    rw [hlog₀] at hissued
    refine ⟨hissued.clock, ⟨request, _, hbacked⟩, ?_⟩
    obtain ⟨d, hd, now, hread, hentitlements⟩ := hissued.backed.entitlements
    refine ⟨d, hd, c.principal.identityId, now, hread, fun id hid => ?_⟩
    rw [hissued.entitlementIds] at hid
    obtain ⟨x, hx, rfl⟩ := List.mem_map.mp hid
    refine ⟨x, ?_, rfl, hissued.expiry x hx⟩
    rw [hentitlements, mem_contextEntitlements] at hx
    exact hx.1

end Soundness

/-- A grant that expires, a request and an issuance, with time passing before the last batch. -/
def expiryMoves : List (Move Call) :=
  Move.alone 0
    (.createAgentPermission "a" ⟨"https://notes", ["read"], .expiring 5⟩ "u" none) 12 ++
    Move.alone 1
      (.createAgentAccessRequest Sample.agent
        ⟨"notes", ["read"], some [Sample.authority], none⟩) 12 ++
    Move.alone 2 (.issueTargetAccessToken "id-2" Sample.proof Sample.agent) 16 ++
    Move.alone 3 (.elapse 10) 1 ++ [.resume 2]

set_option maxRecDepth 10000 in
/-- The sample run issues a lease, and the theorem finds its origin. -/
theorem tokenLeases_sound_sample : ∃ pool : AccessPool, pool.store.leases.length = 1 ∧
    ∀ l ∈ pool.store.leases, ∃ t ∈ pool.threads, ∃ e ∈ t.log, ∃ l₀, Inserts e l₀ ∧
      l₀.Persists l := by
  have hrun : (Sample.run expiryMoves).any
      (fun pool => pool.store.leases.length = 1) = true := by
    decide +kernel
  obtain ⟨pool, hpool, hcheck⟩ := Sample.reachable_of_run hrun
  exact ⟨pool, by simpa using hcheck, (tokenLeases_sound hpool).1⟩

def insertsExpired (e : Event Store Operation) : Bool :=
  match e.operation with
  | .issueTokenLease i =>
    decide ((apply e.operation e.before).leases = e.before.leases ++ [i.lease]) &&
      i.lease.entitlementIds.any fun id =>
        !(e.before.findEntitlement id).any (·.active e.before.now)
  | _ => false

set_option maxRecDepth 10000 in
/-- An entitlement may expire between the clock reading of an issuance and its insert. -/
theorem lease_of_expired_entitlement : ∃ pool : AccessPool, AccessReachable pool ∧
    ∃ t ∈ pool.threads, ∃ e ∈ t.log, ∃ l, Inserts e l ∧ ∃ id ∈ l.entitlementIds,
      (e.before.findEntitlement id).any (·.active e.before.now) = false := by
  have hrun : (Sample.run expiryMoves).any
      (fun pool => pool.threads.any fun t => t.log.any insertsExpired) = true := by
    decide +kernel
  obtain ⟨pool, hpool, hcheck⟩ := Sample.reachable_of_run hrun
  obtain ⟨t, ht, hlog⟩ := List.any_eq_true.mp hcheck
  obtain ⟨e, he, hexpired⟩ := List.any_eq_true.mp hlog
  refine ⟨pool, hpool, t, ht, e, he, ?_⟩
  unfold insertsExpired at hexpired
  split at hexpired
  · rename_i i hop
    simp only [Bool.and_eq_true, decide_eq_true_eq, List.any_eq_true, Bool.not_eq_true'] at hexpired
    exact ⟨i.lease, ⟨⟨i, hop, rfl⟩, hexpired.1⟩, hexpired.2⟩
  · cases hexpired

end FlareAuth
