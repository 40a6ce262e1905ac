import FlareAuth.Approvals

/-!
# Revocation against issuance

A revocation lists the leases of its entitlement, revokes their tokens at the
target, and closes the entitlement and the listed leases in a last batch. A
lease which is inserted between the listing and the last batch escapes it.
-/

namespace FlareAuth

open Concurrent Procedure Relational Repository Statement

section Batch

/-- What the closing batch writes. -/
theorem endEntitlementWithAudit_ok (id : Id) (reason : EndReason) (leaseIds : List Id) (now : ℕ)
    (audit : AuditEvent) (s : Store) : ∃ found audits,
    endEntitlementWithAudit id reason leaseIds now audit s = .ok (found, { s with
      audits := audits
      entitlements := updateWhere (fun e => e.id == id && e.ended.isNone) (·.finish reason now)
        s.entitlements
      leases := updateWhere (fun l => leaseIds.contains l.id && l.revokedAt.isNone)
        (fun l => { l with revokedAt := some now }) s.leases }) := by
  unfold endEntitlementWithAudit insertAudit Batch.modify
  by_cases h : ((s.findEntitlement id).any fun e => e.ended.isNone) = true
  · exact ⟨_, s.audits ++ [audit], by simp only [bind, if_pos h]; rfl⟩
  · exact ⟨_, s.audits, by simp only [bind, if_neg h]; rfl⟩

variable {id : Id} {reason : EndReason} {leaseIds : List Id} {now : ℕ} {audit : AuditEvent}
  {s : Store}

theorem hasEnded_of_closing (h : ∃ e, s.findEntitlement id = some e) :
    ((endEntitlementWithAudit id reason leaseIds now audit).settle s).HasEnded id := by
  obtain ⟨found, audits, hok⟩ := endEntitlementWithAudit_ok id reason leaseIds now audit s
  rw [Batch.settle_of_ok hok]
  exact hasEnded_of_finish rfl h

theorem revoked_of_closing {l : TokenLease} (hid : l.id ∈ leaseIds)
    (hl : l ∈ ((endEntitlementWithAudit id reason leaseIds now audit).settle s).leases) :
    l.revokedAt.isSome = true := by
  obtain ⟨found, audits, hok⟩ := endEntitlementWithAudit_ok id reason leaseIds now audit s
  rw [Batch.settle_of_ok hok] at hl
  obtain ⟨l₀, _, rfl⟩ := mem_updateWhere.mp hl
  by_cases hp : (leaseIds.contains l₀.id && l₀.revokedAt.isNone) = true
  · rw [if_pos hp]
    rfl
  · rw [if_neg hp] at hid ⊢
    have hmem : leaseIds.contains l₀.id = true := by simpa using hid
    rw [hmem, Bool.true_and] at hp
    simpa [Option.isSome_iff_ne_none] using hp

end Batch

/-- A revocation of the entitlement has listed its leases and is still going on. -/
def Revoking (pool : AccessPool) (entitlementId : Id) : Prop :=
  ∃ t ∈ pool.threads, (∃ actorUserId, t.call = .revokeAgentPermission entitlementId actorUserId) ∧
    (∃ d ∈ t.log, ∃ now, d.operation = .read (.tokenLeasesByEntitlement entitlementId now)) ∧
    ∃ op after, t.rest = .step op after

/-- The move inserts no lease of an entitlement that is being revoked. -/
def NoOvertaking (pool : AccessPool) (m : Move Call) : Prop :=
  ∀ i t x, m = .resume i → pool.pending i = some (t, .issueTokenLease x) → pool.store.Admits x →
    ∀ id ∈ x.lease.entitlementIds, ¬Revoking pool id

section Runs

variable [Locale]

/-- The runs in which no issuance overtakes a revocation. -/
abbrev OrderedReachable : AccessPool → Prop := Reachable Call.program Store.Fresh NoOvertaking

theorem OrderedReachable.reachable {pool : AccessPool} (h : OrderedReachable pool) :
    AccessReachable pool := h.mono fun _ _ _ => trivial

variable {pool : AccessPool} {t : Thread Call Store Operation Failure Reply} {id actorUserId : Id}

/-- A revocation that returned has ended its entitlement. -/
theorem hasEnded_of_returned (h : AccessReachable pool) (ht : t ∈ pool.threads)
    (hcall : t.call = .revokeAgentPermission id actorUserId) {reply : Reply}
    (hdone : t.rest = .done reply) : pool.store.HasEnded id := by
  have hreturned := h.returned program_contract ht hdone
  rw [hcall] at hreturned
  obtain ⟨c, earlier, later, hlog, ⟨reason, leaseIds, now, audit, hop⟩, d, hd, e, he⟩ := hreturned
  have hbefore : d.before.Persists c.before :=
    persists_evolution.trans _ _ _ (persists_evolution.step d.operation d.before)
      (h.evolves_between persists_evolution ht hlog hd)
  have hc : c ∈ t.log := by
    rw [hlog]
    exact List.mem_append_right _ List.mem_cons_self
  obtain ⟨e', he', _⟩ := hbefore.entitlements.lookup (fun _ _ hp => hp.id) he
  have hclosed : (apply c.operation c.before).HasEnded id := by
    rw [hop]
    exact hasEnded_of_closing ⟨e', he'⟩
  exact hasEnded_of_persists ((h.evolves persists_evolution t ht).2 c hc) hclosed

/-- No issuance takes effect for an entitlement that has ended. -/
theorem not_admits_of_hasEnded (h : AccessReachable pool) (ht : t ∈ pool.threads) {x : Issuance}
    {after : Store → Access Reply} (hrest : t.rest = .step (.issueTokenLease x) after)
    (hid : id ∈ x.lease.entitlementIds) (hended : pool.store.HasEnded id) :
    ¬pool.store.Admits x := by
  intro hadmits
  obtain ⟨c, hissued⟩ := issued_of_pending h ht hrest
  obtain ⟨request, hbacked, _⟩ := backed_of_admits h ht hissued hadmits
  obtain ⟨e, he, hsome⟩ := hended
  have hmem : some e ∈ x.lease.entitlementIds.map pool.store.findEntitlement := by
    rw [← he]
    exact List.mem_map_of_mem hid
  rw [hbacked.rows] at hmem
  obtain ⟨e', he', heq⟩ := List.mem_map.mp hmem
  obtain rfl := Option.some.inj heq
  have hactive := (hbacked.backs e' he').active
  rw [ScopeEntitlement.active, Bool.and_eq_true, Option.isNone_iff_eq_none] at hactive
  rw [hactive.1] at hsome
  cases hsome

/-- The invariant: unless it has failed, a revocation which listed the leases of its entitlement
listed every lease there is of it. -/
theorem listed_of_revocation (h : OrderedReachable pool) :
    ∀ t ∈ pool.threads, ∀ id actorUserId, t.call = .revokeAgentPermission id actorUserId →
      (∀ e, t.rest ≠ .fail e) → ∀ d ∈ t.log, ∀ now,
      d.operation = .read (.tokenLeasesByEntitlement id now) →
      ∀ l ∈ pool.store.leases, id ∈ l.entitlementIds → ∃ l₀ ∈ d.before.leases, l₀.id = l.id := by
  induction h with
  | initial hs => intro t ht; simp [Pool.initial] at ht
  | @next pool pool' m hpool hm hnext ih =>
    cases m with
    | start c =>
      simp only [Pool.next, Option.some.injEq] at hnext
      subst hnext
      intro t ht id actorUserId hcall hfail d hd
      rcases List.mem_append.mp ht with ht | ht
      · exact ih t ht id actorUserId hcall hfail d hd
      · simp only [List.mem_singleton] at ht
        simp [ht] at hd
    | resume i =>
      obtain ⟨u, op, after, hu, hrest, hstore, _, hthreads⟩ := Pool.next_resume hnext
      have hreach := OrderedReachable.reachable hpool
      have humem := List.mem_of_getElem? hu
      intro t ht id actorUserId hcall hfail d hd now hop l hl hid
      rw [hstore, apply_eq] at hl
      -- a lease from before the step is listed by induction, a new one contradicts the order
      have hlisted : ∀ t₀ ∈ pool.threads, t₀.call = .revokeAgentPermission id actorUserId →
          (∀ e, t₀.rest ≠ .fail e) → d ∈ t₀.log → ∃ l₀ ∈ d.before.leases, l₀.id = l.id := by
        intro t₀ ht₀ hcall₀ hfail₀ hd₀
        rcases mem_leases_perform hl with ⟨l₁, hl₁, hpersists⟩ | ⟨x, rfl, hadmits, rfl⟩
        · rw [hpersists.entitlementIds] at hid
          obtain ⟨l₀, hl₀, heq⟩ := ih t₀ ht₀ id actorUserId hcall₀ hfail₀ d hd₀ now hop l₁ hl₁ hid
          exact ⟨l₀, hl₀, heq.trans hpersists.id.symm⟩
        · cases hrest₀ : t₀.rest with
          | fail e => exact absurd hrest₀ (hfail₀ e)
          | done reply =>
            have hended := hasEnded_of_returned hreach ht₀ hcall₀ hrest₀
            exact absurd hadmits (not_admits_of_hasEnded hreach humem hrest hid hended)
          | step op' after' =>
            have hrevoking : Revoking pool id :=
              ⟨t₀, ht₀, ⟨actorUserId, hcall₀⟩, ⟨d, hd₀, now, hop⟩, op', after', hrest₀⟩
            exact absurd hrevoking
              (hm i u x rfl (Pool.pending_of_step hu hrest) hadmits id hid)
      obtain ⟨j, hj⟩ := List.mem_iff_getElem?.mp ht
      rcases Pool.threads_next_resume hu hthreads hj with ⟨_, rfl⟩ | ⟨_, hold⟩
      · rcases List.mem_cons.mp hd with rfl | hd
        · obtain rfl : op = .read (.tokenLeasesByEntitlement id now) := hop
          exact ⟨l, hl, rfl⟩
        · refine hlisted u humem hcall (fun e he => ?_) hd
          rw [hrest] at he
          cases he
      · exact hlisted t (List.mem_of_getElem? hold) hcall hfail hd

/-- Revocation is complete against issuance in every run in which no issuance overtakes one. -/
theorem revocation_complete (h : OrderedReachable pool) (ht : t ∈ pool.threads)
    (hcall : t.call = .revokeAgentPermission id actorUserId) {reply : Reply}
    (hdone : t.rest = .done reply) :
    (∀ l ∈ pool.store.leases, id ∈ l.entitlementIds → l.active pool.store.now = false) ∧
    ∀ u ∈ pool.threads, ∀ x after, u.rest = .step (.issueTokenLease x) after →
      id ∈ x.lease.entitlementIds → ¬pool.store.Admits x := by
  have hreach := h.reachable
  have hended := hasEnded_of_returned hreach ht hcall hdone
  refine ⟨fun l hl hid => ?_, fun u hu x after hrest hid =>
    not_admits_of_hasEnded hreach hu hrest hid hended⟩
  have hreturned := hreach.returned program_contract ht hdone
  rw [hcall] at hreturned
  obtain ⟨c, _, _, hlog₀, ⟨reason, leaseIds, now, audit, hop⟩, _⟩ := hreturned
  have hc : c ∈ t.log := by
    rw [hlog₀]
    exact List.mem_append_right _ List.mem_cons_self
  obtain ⟨earlier, later, hlog, hjustified⟩ := (hreach.logged program_contract ht).of_mem hc
  rw [hop] at hjustified
  obtain ⟨d, hd, d', hd', hread, hids⟩ := hjustified
  have hmem : ∀ {f : Event Store Operation}, f ∈ earlier → f ∈ t.log := by
    intro f hf
    rw [hlog]
    exact List.mem_append_right _ (List.mem_cons_of_mem _ hf)
  have hfail : ∀ e, t.rest ≠ .fail e := by
    intro e he
    rw [hdone] at he
    cases he
  obtain ⟨l₀, hl₀, hsame⟩ := listed_of_revocation h t ht id actorUserId hcall hfail d (hmem hd) _
    hread l hl hid
  by_contra hactive
  rw [Bool.not_eq_false, TokenLease.active, Bool.and_eq_true, decide_eq_true_eq,
    Option.isNone_iff_eq_none] at hactive
  -- the listing found the lease active, so the closing batch revoked it
  have hpersists : l₀.Persists l :=
    (hreach.evolves_before persists_evolution ht (hmem hd)).leases.of_mem_of_key_eq
      (fun _ _ hp => hp.id) hreach.valid.leases hl₀ hl hsame.symm
  have hclock : d'.before.now ≤ pool.store.now :=
    (hreach.evolves_before persists_evolution ht (hmem hd')).now
  have hunrevoked : l₀.revokedAt = none := by
    cases hr : l₀.revokedAt with
    | none => rfl
    | some at₀ =>
      have hrevoked := hpersists.revoked (by rw [hr]; rfl)
      rw [hactive.2] at hrevoked
      cases hrevoked
  have hlisted : l₀.id ∈ leaseIds := by
    rw [hids]
    refine List.mem_map_of_mem (List.mem_filter.mpr ⟨hl₀, ?_⟩)
    rw [decide_eq_true_eq, ← hpersists.entitlementIds, TokenLease.active, Bool.and_eq_true,
      decide_eq_true_eq, hunrevoked, ← hpersists.expiresAt]
    exact ⟨hid, by omega, rfl⟩
  have hbetween := hreach.evolves_between persists_evolution ht hlog hd
  rw [hread, apply_read] at hbetween
  obtain ⟨l₁, hl₁, hpersists₁⟩ := hbetween.leases.exists_of_mem hl₀
  obtain ⟨l₂, hl₂, hpersists₂⟩ :=
    (persists_evolution.step c.operation c.before).leases.exists_of_mem hl₁
  have hrevoked : l₂.revokedAt.isSome = true := by
    rw [hop] at hl₂
    refine revoked_of_closing ?_ hl₂
    rwa [hpersists₂.id, hpersists₁.id]
  have hafter := ((hreach.evolves persists_evolution t ht).2 c hc).leases
  have hlast : l₂.Persists l :=
    hafter.of_mem_of_key_eq (fun _ _ hp => hp.id) hreach.valid.leases hl₂ hl
      (by rw [hpersists₂.id, hpersists₁.id, hsame])
  have hsome := hlast.revoked hrevoked
  rw [hactive.2] at hsome
  cases hsome

end Runs

/-- Whether a revocation of the entitlement is going on. -/
def revokingCheck (pool : AccessPool) (entitlementId : Id) : Bool :=
  pool.threads.any fun t =>
    match t.call, t.rest with
    | .revokeAgentPermission id _, .step _ _ => id == entitlementId
    | _, _ => false

def overtakingCheck (pool : AccessPool) : Move Call → Bool
  | .start _ => true
  | .resume i =>
    match pool.pending i with
    | some (_, .issueTokenLease x) => x.lease.entitlementIds.all fun id => !revokingCheck pool id
    | _ => true

theorem noOvertaking_of_check {pool : AccessPool} {m : Move Call}
    (h : overtakingCheck pool m = true) : NoOvertaking pool m := by
  intro i t x hm hpending _ id hid hrevoking
  rw [hm, overtakingCheck, hpending] at h
  have hnone : revokingCheck pool id = false := by simpa using List.all_eq_true.mp h id hid
  obtain ⟨u, hu, ⟨actorUserId, hcall⟩, _, op, after, hrest⟩ := hrevoking
  have hcheck := List.any_eq_false.mp hnone u hu
  rw [hcall, hrest] at hcheck
  simp at hcheck

/-- An automatic approval, and an issuance for it up to its batch. -/
def issuanceMoves : List (Move Call) :=
  Move.alone 0 (.createAgentAccessRequest Sample.agent
      ⟨"notes", ["read"], some [Sample.authority], none⟩) 35 ++
    Move.alone 1 (.issueTargetAccessToken "id-1" Sample.proof Sample.agent) 16

def hasRevoked (entitlementId : Id) (t : Thread Call Store Operation Failure Reply) : Bool :=
  match t.call, t.rest with
  | .revokeAgentPermission id _, .done _ => id == entitlementId
  | _, _ => false

set_option maxRecDepth 10000 in
theorem revocation_complete_sample : ∃ pool : AccessPool,
    (∃ l ∈ pool.store.leases, "id-3" ∈ l.entitlementIds) ∧
    ∀ l ∈ pool.store.leases, "id-3" ∈ l.entitlementIds → l.active pool.store.now = false := by
  have hrun : ((Pool.initial Sample.store).run Call.program overtakingCheck
      (issuanceMoves ++ [.resume 1] ++ Move.alone 2 (.revokeAgentPermission "id-3" "u") 12)).any
      (fun pool => pool.threads.any (hasRevoked "id-3") &&
        pool.store.leases.any (·.entitlementIds.contains "id-3")) = true := by
    decide +kernel
  obtain ⟨pool, hpool, hcheck⟩ := (Option.any_eq_true _ _).mp hrun
  have hreach : OrderedReachable pool := Reachable.of_run (fun _ _ => noOvertaking_of_check)
    (.initial Sample.store_fresh) hpool
  rw [Bool.and_eq_true, List.any_eq_true] at hcheck
  obtain ⟨⟨t, ht, hrevoked⟩, hlease⟩ := hcheck
  refine ⟨pool, by simpa using hlease, ?_⟩
  unfold hasRevoked at hrevoked
  split at hrevoked
  · rename_i id actorUserId reply hcall hdone
    obtain rfl : id = "id-3" := by simpa using hrevoked
    exact (revocation_complete hreach ht hcall hdone).1
  · cases hrevoked

set_option maxRecDepth 10000 in
/-- A lease that is inserted after the listing stays active when the revocation has returned. -/
theorem lease_escapes_revocation : ∃ pool : AccessPool, AccessReachable pool ∧
    (∃ t ∈ pool.threads, hasRevoked "id-3" t = true) ∧
    ∃ l ∈ pool.store.leases, "id-3" ∈ l.entitlementIds ∧ l.active pool.store.now = true := by
  have hrun : (Sample.run (issuanceMoves ++
      Move.alone 2 (.revokeAgentPermission "id-3" "u") 8 ++ [.resume 1, .resume 2])).any
      (fun pool => pool.threads.any (hasRevoked "id-3") && pool.store.leases.any fun l =>
        l.entitlementIds.contains "id-3" && l.active pool.store.now) = true := by
    decide +kernel
  obtain ⟨pool, hpool, hcheck⟩ := Sample.reachable_of_run hrun
  exact ⟨pool, hpool, by simpa using hcheck⟩

end FlareAuth
