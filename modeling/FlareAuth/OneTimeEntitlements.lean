import FlareAuth.TokenLeases

/-!
# One-time entitlements

The batch that inserts a lease also ends the one-time entitlements which the
lease was computed from. The invariant is that a one-time entitlement which
some lease references has ended, and no operation brings an ended one back.
-/

namespace FlareAuth

open Concurrent Procedure Relational Repository Statement

def Store.leasesOf (s : Store) (entitlementId : Id) : ℕ :=
  (s.leases.map (·.entitlementIds)).countP (·.contains entitlementId)

def Store.HasEnded (s : Store) (entitlementId : Id) : Prop :=
  ∃ e, s.findEntitlement entitlementId = some e ∧ e.ended.isSome = true

/-- An ended entitlement stays ended. -/
theorem hasEnded_of_persists {s t : Store} (h : s.Persists t) {id : Id} (hended : s.HasEnded id) :
    t.HasEnded id := by
  obtain ⟨e, he, hsome⟩ := hended
  obtain ⟨e', he', hpersists⟩ := h.entitlements.lookup (fun _ _ hp => hp.id) he
  exact ⟨e', he', hpersists.ended hsome⟩

/-- An entitlement that is there has ended after the update that ends it. -/
theorem hasEnded_of_finish {s t : Store} {id : Id} {reason : EndReason} {now : ℕ}
    (h : t.entitlements = updateWhere (fun e => e.id == id && e.ended.isNone)
      (·.finish reason now) s.entitlements)
    (hfound : ∃ e, s.findEntitlement id = some e) : t.HasEnded id := by
  obtain ⟨e, he⟩ := hfound
  have hlookup := lookup_updateWhere ScopeEntitlement.id
    (p := fun e => e.id == id && e.ended.isNone) (f := (·.finish reason now)) (fun _ => rfl) he
  rw [← h] at hlookup
  refine ⟨_, hlookup, ?_⟩
  have hid : e.id = id := key_of_lookup he
  by_cases hended : e.ended.isNone = true
  · rw [if_pos (by simp [hid, hended])]
    rfl
  · rw [if_neg (by simp [hended])]
    simpa [Option.isSome_iff_ne_none] using hended

/-- Without a new lease the references to an entitlement are what they were. -/
theorem leasesOf_of_sameLeases {s t : Store} (h : s.Persists t) (hsame : s.SameLeases t) (id : Id) :
    t.leasesOf id = s.leasesOf id := by
  rw [Store.leasesOf, h.leases.map_eq (fun _ _ hp => hp.entitlementIds) hsame, Store.leasesOf]

section Issuance

variable [Locale] {pool : AccessPool} {t : Thread Call Store Operation Failure Reply}
  {i : Issuance} {id : Id}

/-- An issuance that takes effect ends each one-time entitlement that it names. -/
theorem consumed_of_admits (h : AccessReachable pool) (ht : t ∈ pool.threads)
    {c : IssuanceContext} (hissued : Issued t.log i c) (hadmits : pool.store.Admits i)
    (honce : ∀ s ∈ pool.history, ∀ e ∈ s.entitlements, e.id = id → e.mode = .once)
    (hid : id ∈ i.lease.entitlementIds) :
    ∃ e, pool.store.findEntitlement id = some e ∧ e.ended = none ∧
      (pool.store.issued i).findEntitlement id = some (e.finish .consumed i.now) := by
  obtain ⟨request, hbacked, _⟩ := backed_of_admits h ht hissued hadmits
  rw [hissued.entitlementIds] at hid
  obtain ⟨x, hx, rfl⟩ := List.mem_map.mp hid
  obtain ⟨⟨d, hd, hmem⟩, _⟩ := hissued.backed.read hx
  obtain ⟨hcurrent, _⟩ := entitlement_of_read h ht hd hmem
  have hactive := (hbacked.backs _ (List.mem_map_of_mem hx)).active
  have hnone : (pool.store.current x).ended = none := by
    rw [ScopeEntitlement.active, Bool.and_eq_true, Option.isNone_iff_eq_none] at hactive
    exact hactive.1
  refine ⟨pool.store.current x, hcurrent, hnone, ?_⟩
  -- the mode which decides about consumption was read in an earlier store of the run
  have hmode : x.mode = .once :=
    honce d.before (List.mem_cons_of_mem _ (h.before_mem_past t ht d hd)) x hmem rfl
  have hconsumed : x.id ∈ i.consumeEntitlementIds := by
    rw [hissued.consumed]
    exact List.mem_map_of_mem (List.mem_filter.mpr ⟨hx, by simpa using hmode⟩)
  have hkey : (pool.store.current x).id = x.id := key_of_lookup hcurrent
  have hselected : (i.consumeEntitlementIds.contains (pool.store.current x).id &&
      (pool.store.current x).ended.isNone) = true := by
    rw [hkey, hnone]
    simpa using hconsumed
  have hlookup := lookup_updateWhere ScopeEntitlement.id
    (p := fun e => i.consumeEntitlementIds.contains e.id && e.ended.isNone)
    (f := (·.finish .consumed i.now)) (fun _ => rfl) hcurrent
  rwa [if_pos hselected] at hlookup

/-- An issuance takes effect as a whole or leaves the store as it was. -/
theorem issueTokenLease_atomic (h : AccessReachable pool) {k : ℕ} (ht : pool.threads[k]? = some t)
    {after : Store → Access Reply} (hrest : t.rest = .step (.issueTokenLease i) after) :
    (pool.store.Admits i ∧ (issueTokenLeaseWithAudit i).settle pool.store = pool.store.issued i) ∨
      (¬pool.store.Admits i ∧ (issueTokenLeaseWithAudit i).settle pool.store = pool.store) := by
  have hfresh := fresh_of_pending h ht hrest
  by_cases hguard : (pool.store.findAccessRequest i.lease.requestId).any
      (pool.store.leaseInsertable i.lease i.boundary) = true
  · rcases issueTokenLease_cases i pool.store with hdone | ⟨hno, _⟩
    · exact .inl hdone
    · refine .inr ⟨hno, ?_⟩
      have hclash : (pool.store.leases.any fun l =>
          l.id == i.lease.id || l.tokenHash == i.lease.tokenHash) = true := by
        by_contra hnone
        refine hno ⟨hguard, fun l hl => ?_⟩
        have hl' := List.any_eq_false.mp (Bool.eq_false_iff.mpr hnone) l hl
        simpa using hl'
      exact Batch.settle_of_error (issueTokenLeaseWithAudit_of_clash hguard hclash)
  · have hrefused := issueTokenLeaseWithAudit_of_refused (Bool.eq_false_iff.mpr hguard) hfresh
    exact .inr ⟨fun hadmits => hguard hadmits.1, Batch.settle_of_ok hrefused⟩

/-- The invariant: an entitlement that is never anything but one-time backs one lease at most,
and none before it has ended. -/
theorem oneTime_invariant (h : AccessReachable pool)
    (honce : ∀ s ∈ pool.history, ∀ e ∈ s.entitlements, e.id = id → e.mode = .once) :
    pool.store.leasesOf id = 0 ∨ (pool.store.leasesOf id = 1 ∧ pool.store.HasEnded id) := by
  induction h with
  | @initial s hs =>
    left
    simp [Pool.initial, Store.leasesOf, hs.leases]
  | @next pool pool' m hpool _ hnext ih =>
    cases m with
    | start c =>
      simp only [Pool.next, Option.some.injEq] at hnext
      subst hnext
      exact ih honce
    | resume k =>
      obtain ⟨t, op, after, ht, hrest, hstore, hpast, _⟩ := Pool.next_resume hnext
      have hhistory : ∀ s ∈ pool.history, ∀ e ∈ s.entitlements, e.id = id → e.mode = .once := by
        intro s hs
        refine honce s ?_
        rw [Pool.history, hpast]
        exact List.mem_cons_of_mem _ hs
      have hbefore := ih hhistory
      have hpersists : pool.store.Persists (op.perform pool.store) :=
        (precedes_perform op pool.store).persists
      have hkeep : pool.store.SameLeases (op.perform pool.store) →
          pool'.store.leasesOf id = 0 ∨
            (pool'.store.leasesOf id = 1 ∧ pool'.store.HasEnded id) := by
        intro hsame
        rw [hstore, apply_eq, leasesOf_of_sameLeases hpersists hsame]
        exact hbefore.imp_right fun hone => ⟨hone.1, hasEnded_of_persists hpersists hone.2⟩
      by_cases hissues : op.Issues
      · cases op with
        | issueTokenLease i =>
          rcases issueTokenLease_cases i pool.store with ⟨hadmits, hissuedStore⟩ | ⟨_, hsame⟩
          · have htmem := List.mem_of_getElem? ht
            obtain ⟨c, hissued⟩ := issued_of_pending hpool htmem hrest
            have hcount : pool'.store.leasesOf id =
                pool.store.leasesOf id + if i.lease.entitlementIds.contains id then 1 else 0 := by
              rw [hstore, apply_eq, Operation.perform, hissuedStore]
              simp only [Store.leasesOf, Store.issued, List.map_append, List.map_cons,
                List.map_nil, List.countP_append, List.countP_singleton]
            by_cases hid : id ∈ i.lease.entitlementIds
            · obtain ⟨e, hfound, hnone, hafter⟩ :=
                consumed_of_admits hpool htmem hissued hadmits hhistory hid
              have hended : pool'.store.HasEnded id := by
                rw [hstore, apply_eq, Operation.perform, hissuedStore]
                exact ⟨_, hafter, rfl⟩
              have hzero : pool.store.leasesOf id = 0 := by
                rcases hbefore with hzero | ⟨_, e', he', hsome⟩
                · exact hzero
                · rw [hfound] at he'
                  cases he'
                  rw [hnone] at hsome
                  cases hsome
              refine .inr ⟨?_, hended⟩
              rw [hcount, hzero, if_pos (by simpa using hid)]
            · rw [if_neg (by simpa using hid), Nat.add_zero] at hcount
              rw [hcount]
              refine hbefore.imp_right fun hone => ⟨hone.1, ?_⟩
              rw [hstore]
              exact hasEnded_of_persists hpersists hone.2
          · refine hkeep ?_
            rw [Store.SameLeases, Operation.perform, hsame]
        | _ => exact hissues.elim
      · exact hkeep (sameLeases_perform hissues _)

/-- A one-time permission is spent at most once: it backs one lease at most, the batch that
inserts a lease ends it, a losing issuance changes nothing, and nothing revives it. -/
theorem oneTimeEntitlement_spent_once (h : AccessReachable pool)
    (honce : ∀ s ∈ pool.history, ∀ e ∈ s.entitlements, e.id = id → e.mode = .once) :
    pool.store.leasesOf id ≤ 1 ∧
    (∀ t ∈ pool.threads, ∀ e ∈ t.log, ∀ l, Inserts e l → id ∈ l.entitlementIds →
      (∃ x, e.before.findEntitlement id = some x ∧ x.ended = none) ∧
        (apply e.operation e.before).HasEnded id) ∧
    (∀ t ∈ pool.threads, ∀ e ∈ t.log, ∀ i, e.operation = .issueTokenLease i →
      Inserts e i.lease ∨ apply e.operation e.before = e.before) ∧
    ∀ s ∈ pool.history, s.HasEnded id → pool.store.HasEnded id := by
  refine ⟨?_, ?_, ?_, ?_⟩
  · rcases oneTime_invariant h honce with hzero | ⟨hone, _⟩ <;> omega
  · intro t ht e he l hinserts hid
    obtain ⟨i, hop, rfl, hadmits⟩ := hinserts.admits
    obtain ⟨later, earlier, hlog⟩ := List.append_of_mem he
    obtain ⟨pool₀, k, t₀, after, hreach, _, hk, _, _, hrest, hstore, hhistory⟩ := h.of_log ht hlog
    rw [hop] at hrest
    have ht₀ := List.mem_of_getElem? hk
    obtain ⟨c, hissued⟩ := issued_of_pending hreach ht₀ hrest
    have honce₀ : ∀ s ∈ pool₀.history, ∀ e ∈ s.entitlements, e.id = id → e.mode = .once :=
      fun s hs => honce s (List.mem_cons_of_mem _ (hhistory.subset hs))
    rw [← hstore] at hadmits ⊢
    obtain ⟨x, hfound, hnone, hafter⟩ :=
      consumed_of_admits hreach ht₀ hissued hadmits honce₀ hid
    refine ⟨⟨x, hfound, hnone⟩, ?_⟩
    rw [hop, apply_eq, Operation.perform,
      Batch.settle_of_ok (issueTokenLeaseWithAudit_of_admits hadmits)]
    exact ⟨_, hafter, rfl⟩
  · intro t ht e he i hop
    obtain ⟨later, earlier, hlog⟩ := List.append_of_mem he
    obtain ⟨pool₀, k, t₀, after, hreach, _, hk, _, _, hrest, hstore, _⟩ := h.of_log ht hlog
    rw [hop] at hrest
    rcases issueTokenLease_atomic hreach hk hrest with ⟨_, hdone⟩ | ⟨_, hsame⟩
    · refine .inl ⟨⟨i, hop, rfl⟩, ?_⟩
      rw [hop, apply_eq, Operation.perform, ← hstore, hdone]
      rfl
    · right
      rw [hop, apply_eq, Operation.perform, ← hstore, hsame]
  · exact fun s hs => hasEnded_of_persists (h.evolves_history persists_evolution s hs)

end Issuance

/-- A scope of the user `u`. -/
def held (id scope : String) : ScopeEntitlement where
  id := id
  subject := .user "u" none
  resourceServerId := "notes"
  connectionId := none
  authorizationDetails := []
  authorizationContextHash := contextHash []
  scope := scope
  lifetime := .persistent
  grantedBy := .user "u"
  sourceAccessRequestId := none
  ended := none
  createdAt := 0

def askedFor (scopes : List String) : Call :=
  .createAgentAccessRequest Sample.agent ⟨"notes", scopes, some [Sample.authority], none⟩

def approvedFor (requestId : Id) (lifetime : Lifetime) : Call :=
  .decideAgentAccessRequest requestId (.approve ⟨lifetime, some [Sample.authority]⟩) "u"

/-- A scope is approved for a single use, and two issuances read the entitlement before either of
them writes. -/
def rivalMoves : List (Move Call) :=
  Move.alone 0 (.createScopeEntitlement (held "e-list" "list") 0) 2 ++
    Move.alone 1 (askedFor ["list"]) 16 ++ Move.alone 2 (approvedFor "id-1" .once) 19 ++
    Move.alone 3 (.issueTargetAccessToken "id-1" Sample.proof Sample.agent) 16 ++
    Move.alone 4 (.issueTargetAccessToken "id-1" Sample.proof Sample.agent) 16 ++
    [.resume 3, .resume 4]

set_option maxRecDepth 10000 in
theorem oneTimeEntitlement_spent_once_sample : ∃ pool : AccessPool, AccessReachable pool ∧
    0 < pool.store.leasesOf "id-3" ∧ pool.store.leasesOf "id-3" ≤ 1 ∧
    ∀ s ∈ pool.history, s.HasEnded "id-3" → pool.store.HasEnded "id-3" := by
  have hrun : (Sample.run rivalMoves).any (fun pool =>
      decide (0 < pool.store.leasesOf "id-3") &&
        pool.history.all fun s => s.entitlements.all fun e =>
          decide (e.id = "id-3" → e.mode = .once)) = true := by
    decide +kernel
  obtain ⟨pool, hpool, hcheck⟩ := Sample.reachable_of_run hrun
  simp only [Bool.and_eq_true, List.all_eq_true, decide_eq_true_eq] at hcheck
  have hspent := oneTimeEntitlement_spent_once hpool hcheck.2
  exact ⟨pool, hpool, hcheck.1, hspent.1, hspent.2.2.2⟩

end FlareAuth
