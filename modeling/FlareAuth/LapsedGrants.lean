import FlareAuth.Reapprovals

/-!
# Approvals after a grant has lapsed

What an approval that runs alone makes of its request, in every store that a run
reaches: it decides the request exactly if every entitlement which holds a key of
its context is the one that it reuses.
-/

namespace FlareAuth

open Concurrent Procedure Access Relational

section Requests

open Repository

/-- The creation of a request adds that request, or none. -/
theorem mem_requests_createAccessRequest {input r : AgentAccessRequest} {audit : AuditEvent}
    {s : Store}
    (h : r ∈ ((Repository.createAccessRequestWithAudit input audit).settle s).requests) :
    r ∈ s.requests ∨ r = input := by
  let Adds (s t : Store) : Prop := ∀ r ∈ t.requests, r ∈ s.requests ∨ r = input
  have hrefl : ∀ s, Adds s s := fun s r hr => .inl hr
  have htrans : ∀ s t u, Adds s t → Adds t u → Adds s u :=
    fun s t u h h' r hr => (h' r hr).elim (h r) .inr
  have hwithin : Batch.Within Adds (Repository.createAccessRequestWithAudit input audit) := by
    refine .bind htrans (fun s x t hs => ?_) fun created =>
      .bind htrans (.modify fun s => ?_) fun _ => .pure hrefl _
    · unfold Statement.insertAccessRequest at hs
      split at hs
      · cases hs
        exact hrefl s
      · split at hs <;> cases hs
        intro r hr
        exact (List.mem_append.mp hr).imp_right List.mem_singleton.mp
    · dsimp only
      split <;> exact hrefl s
  exact hwithin.settle hrefl s r h

/-- A request of a store after an operation is one of before, or the operation created it. -/
theorem requests_perform_cases {op : Operation} {s : Store} {r : AgentAccessRequest}
    (h : r ∈ (op.perform s).requests) :
    (∃ r₀ ∈ s.requests, r₀.Persists r) ∨ ∃ audit, op = .createAccessRequest r audit := by
  have hevolves := (precedes_perform op s).persists.requests
  by_cases htargets : op.Targets
  · cases op with
    | createAccessRequest input audit =>
      rcases mem_requests_createAccessRequest h with hold | rfl
      · exact .inl ⟨r, hold, .refl r⟩
      · exact .inr ⟨audit, rfl⟩
    | deleteResource id now audit =>
      exact .inl (hevolves.exists_of_mem_later
        ((sameRequests_deleteResource id now audit).settle .refl s) h)
    | administer change => exact .inl ⟨r, h, .refl r⟩
    | _ => exact htargets.elim
  · exact .inl (hevolves.exists_of_mem_later (sameTargets_perform htargets s).requests h)

/-- The scopes of a request are distinct. -/
theorem nodup_scopes [Locale] {pool : AccessPool} (h : AccessReachable pool) :
    ∀ r ∈ pool.store.requests, r.scopes.Nodup := by
  refine h.keeps (I := fun s => ∀ r ∈ s.requests, r.scopes.Nodup) ?_ ?_
  · intro s hs r hr
    rw [hs.requests] at hr
    cases hr
  · intro pool i t op hpool _ hpending ih r hr
    rcases requests_perform_cases hr with ⟨r₀, hr₀, hpersists⟩ | ⟨audit, rfl⟩
    · rw [hpersists.scopes]
      exact ih r₀ hr₀
    · exact (hpool.pending_obeys program_contract hpending).2

end Requests

section Attempts

variable [Locale] {s t : Store} {requestId actorUserId : Id} {r : AgentAccessRequest}
  {input : DecideApproval} {connection : Option ResourceConnection} {now n : ℕ}
  {reasonCode : Option String} {audit : AuditEvent} {a : Approval}

omit [Locale] in
/-- The request that a decision is prepared for. -/
theorem pending_of_exec (h : (prepareDecision requestId actorUserId).exec s =
    (.ok (r, connection, now), t)) :
    s.findAccessRequest requestId = some r ∧ r.status = .pending ∧ now = s.now ∧ s.ReadTo t := by
  have hread := readTo_of_exec (by simp) h
  unfold prepareDecision findPendingAccessRequest findAccessRequest at h
  simp only [bind_assoc] at h
  rw [exec_ask_bind, exec_clock_bind] at h
  obtain ⟨request, hrequest, h⟩ := exec_orThrow_bind h
  obtain ⟨account, u, -, hu, h⟩ := exec_reads_bind (by simp) h
  rw [exec_clock_bind] at h
  obtain ⟨hanswer, -⟩ := Prod.mk.inj h
  obtain ⟨rfl, hrest⟩ := Prod.mk.inj (Except.ok.inj hanswer)
  obtain ⟨-, rfl⟩ := Prod.mk.inj hrest
  obtain ⟨hfound, hpending⟩ := Option.filter_eq_some_iff.mp hrequest
  rw [decide_eq_true_eq] at hpending
  exact ⟨hfound, hpending.1, hu.now_eq, hread⟩

/-- The batch of a prepared approval, with what it finds in the store. -/
theorem clear_of_prepared {s₁ : Store} (hvalid : s.Valid) (hfresh : s.FreshIds)
    (hscopes : r.scopes.Nodup) (hfound : s.findAccessRequest r.id = some r)
    (hpending : r.status = .pending) (hs : s.ReadTo s₁)
    (h : (prepareApproval r input actorUserId reasonCode s.now).exec s₁ = (.ok a, t)) :
    s.ReadTo t ∧ ∃ n audit, a = (approvalContext s r input actorUserId).approvalIn t n audit ∧
      (approvalContext s r input actorUserId).Clear t n ∧
      ∀ e ∈ a.entitlements, ∃ m < t.generated, e.id = generatedId m := by
  rw [← hs.now_eq] at h
  obtain ⟨hprepared, ht⟩ := preparedIn_of_exec h
  obtain ⟨g, hg, rfl⟩ := hs
  obtain ⟨g', hg', rfl⟩ := ht
  obtain ⟨n, hn, ha⟩ := hprepared.approval
  have hstore : s.ReadTo { s with generated := g' } := ⟨g', hg.trans hg', rfl⟩
  have hclear : (approvalContext s r input actorUserId).Clear { s with generated := g' } n :=
    { valid := hvalid.readTo hstore
      fresh := fun e he m hm => hfresh e he m (hg.trans (hn.trans hm))
      scopes := hscopes
      request := hfound
      pending := hpending
      resource := hprepared.resource
      account := hprepared.account
      lifetime := hprepared.lifetime }
  refine ⟨hstore, n, a.audit, ha, ?_⟩
  exact ⟨hclear, hprepared.generated⟩

def finishAttempt (requestId : Id) (input : DecideApproval) (actorUserId : Id)
    (reasonCode : Option String) (attempts : ℕ) (request : AgentAccessRequest) :
    ApprovalResult → Access AgentAccessRequest
  | .resourceUnavailable =>
    fail (badRequest "The API resource was deleted before access could be approved.")
  | .entitlementsChanged => do
    match ← findAccessRequest requestId with
    | some concurrentlyDecided =>
      if concurrentlyDecided.status = .approved then
        toDecidedRequest concurrentlyDecided concurrentlyDecided
      else decideAttempts requestId (.approve input) actorUserId reasonCode attempts
    | none => decideAttempts requestId (.approve input) actorUserId reasonCode attempts
  | .requestChanged => fail (badRequest "Agent access request was already decided.")
  | .approved _ approved => toDecidedRequest approved request

theorem exec_attempt {s₁ : Store} {attempts : ℕ}
    (hdecision : (prepareDecision requestId actorUserId).exec s = (.ok (r, connection, now), s₁))
    (happroval : (prepareApproval r input actorUserId reasonCode now).exec s₁ = (.ok a, t)) :
    (decideAttempts requestId (.approve input) actorUserId reasonCode (attempts + 1)).exec s =
      (approveAccessRequestWithEntitlements a >>=
        finishAttempt requestId input actorUserId reasonCode attempts r).exec t := by
  rw [decideAttempts, exec_bind_ok _ hdecision]
  dsimp only
  rw [exec_bind_ok _ happroval]
  congr 2

/-- An attempt whose batch does not report a conflict is the last one. -/
theorem readTo_finishAttempt {attempts : ℕ} {result : ApprovalResult}
    (h : result ≠ .entitlementsChanged) (s : Store) : s.ReadTo
      ((finishAttempt requestId input actorUserId reasonCode attempts r result).exec s).2 := by
  refine exec_reads ?_ s
  cases result with
  | resourceUnavailable => exact trivial
  | entitlementsChanged => exact absurd rfl h
  | requestChanged => exact trivial
  | approved entitlements approved => exact reads_toDecidedRequest approved r

/-- A conflict on a request that is still pending is followed by the next attempt. -/
theorem exec_finishAttempt_of_pending {attempts : ℕ} {q : AgentAccessRequest}
    (hfound : s.findAccessRequest requestId = some q) (hpending : q.status = .pending) :
    (finishAttempt requestId input actorUserId reasonCode attempts r .entitlementsChanged).exec s =
      (decideAttempts requestId (.approve input) actorUserId reasonCode attempts).exec s := by
  unfold finishAttempt findAccessRequest
  rw [exec_ask_bind, hfound]
  dsimp only
  rw [hpending, if_neg (by decide)]

omit [Locale] in
theorem exec_approve_of_ok {result : ApprovalResult}
    (h : Repository.approveAccessRequestWithEntitlements a s = .ok (result, t)) :
    (approveAccessRequestWithEntitlements a).exec s = (.ok result, t) := exec_commit_of_ok rfl h

omit [Locale] in
theorem exec_approve_of_error {e : Failure}
    (h : Repository.approveAccessRequestWithEntitlements a s = .error e) :
    (approveAccessRequestWithEntitlements a).exec s = (.error e, s) := exec_commit_of_error rfl h

structure Stuck (s : Store) (r : AgentAccessRequest) (input : DecideApproval) (actorUserId : Id) :
    Prop where
  valid : s.Valid
  fresh : s.FreshIds
  scopes : r.scopes.Nodup
  found : s.findAccessRequest r.id = some r
  pending : r.status = .pending
  blocked : ¬(approvalContext s r input actorUserId).Unblocked s

theorem Stuck.readTo (h : Stuck s r input actorUserId) (ht : s.ReadTo t) :
    t.findAccessRequest r.id = some r := by
  obtain ⟨g, -, rfl⟩ := ht
  exact h.found

/-- The batch of a blocked approval leaves the request blocked, if it changes anything. -/
theorem Stuck.approve (h : Stuck s r input actorUserId) (hs : s.ReadTo t)
    (happroval : a = (approvalContext s r input actorUserId).approvalIn t n audit)
    (hclear : (approvalContext s r input actorUserId).Clear t n)
    (hgenerated : ∀ e ∈ a.entitlements, ∃ m < t.generated, e.id = generatedId m)
    {result : ApprovalResult} {u : Store}
    (hbatch : Repository.approveAccessRequestWithEntitlements a t = .ok (result, u)) :
    Stuck u r input actorUserId := by
  obtain ⟨g, hg, rfl⟩ := hs
  rw [happroval] at hbatch hgenerated
  obtain ⟨hblocks, hrows⟩ := approve_of_blocked hclear h.blocked hbatch
  have hcontext : approvalContext u r input actorUserId =
      approvalContext s r input actorUserId := by
    unfold approvalContext
    rw [hblocks.directory, hblocks.now]
  refine ⟨hblocks.valid, fun e he m hm => ?_, h.scopes, ?_, h.pending, ?_⟩
  · have hpersists :=
      (Repository.precedes_approveAccessRequestWithEntitlements _ _ _ _ hbatch).persists
    have hlater : g ≤ m := hpersists.generated.trans hm
    rcases hrows e he with ⟨e₀, he₀, hid⟩ | ⟨e₀, he₀, hid⟩
    · rw [hid]
      exact h.fresh e₀ he₀ m (hg.trans hlater)
    · obtain ⟨m', hm', hid'⟩ := hgenerated e₀ he₀
      rw [hid, hid']
      intro heq
      have hsame := generatedId_inj heq
      have hbefore : m' < g := hm'
      omega
  · rw [Store.findAccessRequest, hblocks.requests]
    exact h.found
  · rw [hcontext]
    exact hblocks.blocked

/-- The batch of a blocked approval does not report its request as approved. -/
theorem Stuck.not_approved {es : List ScopeEntitlement} {q : AgentAccessRequest} {u : Store}
    (h : Stuck u r input actorUserId) (hid : a.requestId = r.id)
    (hbatch : Repository.approveAccessRequestWithEntitlements a t = .ok (.approved es q, u)) :
    False := by
  obtain ⟨-, hmem, q₀, hq₀, rfl, -⟩ := approved_ok hbatch
  have hkey : q₀.id = r.id := hq₀.trans hid
  have hfound : u.findAccessRequest q₀.id = some r := hkey ▸ h.found
  have hdecided := Option.some.inj ((lookup_of_mem h.valid.requests hmem).symm.trans hfound)
  have hpending := h.pending
  rw [← hdecided] at hpending
  cases hpending

/-- As long as the approval is blocked, every attempt fails and leaves the request undecided. -/
theorem Stuck.fails (h : Stuck s r input actorUserId) (reasonCode : Option String)
    (attempts : ℕ) : ∃ e t,
      (decideAttempts r.id (.approve input) actorUserId reasonCode attempts).exec s =
        (.error e, t) ∧ t.findAccessRequest r.id = some r := by
  induction attempts generalizing s with
  | zero => exact ⟨_, s, rfl, h.found⟩
  | succ attempts ih =>
    cases hdecision : (prepareDecision r.id actorUserId).exec s with
    | mk decision s₁ =>
    have hs₁ := readTo_of_exec (by simp) hdecision
    cases decision with
    | error e =>
      rw [decideAttempts, exec_bind_error _ hdecision]
      exact ⟨e, s₁, rfl, h.readTo hs₁⟩
    | ok prepared =>
      obtain ⟨request, connection, now⟩ := prepared
      obtain ⟨hrequest, -, rfl, -⟩ := pending_of_exec hdecision
      obtain rfl := Option.some.inj (h.found.symm.trans hrequest)
      cases happroval : (prepareApproval r input actorUserId reasonCode s.now).exec s₁ with
      | mk approval s₂ =>
      have hs₂ := hs₁.trans (readTo_of_exec (by simp) happroval)
      cases approval with
      | error e =>
        rw [decideAttempts, exec_bind_ok _ hdecision]
        dsimp only
        rw [exec_bind_error _ happroval]
        exact ⟨e, s₂, rfl, h.readTo hs₂⟩
      | ok a =>
        obtain ⟨-, n, audit, ha, hclear, hgenerated⟩ :=
          clear_of_prepared h.valid h.fresh h.scopes h.found h.pending hs₁ happroval
        rw [exec_attempt hdecision happroval]
        cases hbatch : Repository.approveAccessRequestWithEntitlements a s₂ with
        | error e =>
          rw [exec_bind_error _ (exec_approve_of_error hbatch)]
          exact ⟨e, s₂, rfl, h.readTo hs₂⟩
        | ok changed =>
          obtain ⟨result, u⟩ := changed
          have hstuck := h.approve hs₂ ha hclear hgenerated hbatch
          rw [exec_bind_ok _ (exec_approve_of_ok hbatch)]
          cases result with
          | resourceUnavailable => exact ⟨_, u, rfl, hstuck.found⟩
          | requestChanged => exact ⟨_, u, rfl, hstuck.found⟩
          | entitlementsChanged =>
            rw [exec_finishAttempt_of_pending hstuck.found hstuck.pending]
            exact ih hstuck
          | approved es q =>
            exact (hstuck.not_approved (by rw [ha]; rfl) hbatch).elim

/-- As long as the approval is blocked, no attempt decides the request. -/
theorem Stuck.undecided (h : Stuck s r input actorUserId) (attempts : ℕ) :
    ((decideAttempts r.id (.approve input) actorUserId reasonCode attempts).exec
      s).2.findAccessRequest r.id = some r := by
  obtain ⟨e, t, hfails, hfound⟩ := h.fails reasonCode attempts
  rw [hfails]
  exact hfound

/-- An approval that passes its validation in a store, when nothing comes between. -/
def Validated (s : Store) (requestId : Id) (input : DecideApproval) (actorUserId : Id)
    (r : AgentAccessRequest) : Prop :=
  ∃ connection s₁ a t,
    (prepareDecision requestId actorUserId).exec s = (.ok (r, connection, s.now), s₁) ∧
    (prepareApproval r input actorUserId none s.now).exec s₁ = (.ok a, t)

theorem ApprovalContext.Decided.readTo {c : ApprovalContext} (h : c.Decided s) (ht : s.ReadTo t) :
    c.Decided t := by
  obtain ⟨g, -, rfl⟩ := ht
  exact ⟨h.request, h.grants⟩

/-- An approval that nothing blocks decides its request at the first attempt. -/
theorem decided_of_unblocked (hvalid : s.Valid) (hfresh : s.FreshIds) (hscopes : r.scopes.Nodup)
    (h : Validated s requestId input actorUserId r)
    (hunblocked : (approvalContext s r input actorUserId).Unblocked s) :
    (approvalContext s r input actorUserId).Decided
      ((decideAgentAccessRequest requestId (.approve input) actorUserId none).exec s).2 := by
  obtain ⟨connection, s₁, a, t, hdecision, happroval⟩ := h
  obtain ⟨hfound, hpending, -, hs₁⟩ := pending_of_exec hdecision
  have hid : r.id = requestId := key_of_lookup hfound
  rw [← hid] at hfound
  obtain ⟨hs, n, audit, ha, hclear, -⟩ :=
    clear_of_prepared hvalid hfresh hscopes hfound hpending hs₁ happroval
  obtain ⟨g, -, rfl⟩ := hs
  obtain ⟨result, u, hbatch, hresult, hdecided⟩ :=
    approve_of_unblocked audit hclear hunblocked
  rw [← ha] at hbatch
  unfold decideAgentAccessRequest
  rw [exec_attempt hdecision happroval, exec_bind_ok _ (exec_approve_of_ok hbatch)]
  exact hdecided.readTo (readTo_finishAttempt hresult u)

end Attempts

section Lapsed

variable [Locale] {pool : AccessPool} {requestId actorUserId : Id} {r : AgentAccessRequest}
  {input : DecideApproval}

theorem exec_decide_store (s : Store) :
    ((Call.decideAgentAccessRequest requestId (.approve input) actorUserId).program.exec s).2 =
      ((decideAgentAccessRequest requestId (.approve input) actorUserId none).exec s).2 := by
  unfold Call.program
  cases h : (decideAgentAccessRequest requestId (.approve input) actorUserId none).exec s with
  | mk answer t =>
    cases answer with
    | error e => rw [exec_bind_error _ h]
    | ok decided =>
      rw [exec_bind_ok _ h]
      rfl

/-- An approval that passes its validation and runs alone approves its request and grants each of
its scopes if and only if nothing but what it reuses holds a key of its context. -/
theorem reapproval_decides_iff (h : AccessReachable pool) (hfresh : pool.store.FreshIds)
    (hvalidated : Validated pool.store requestId input actorUserId r) :
    (approvalContext pool.store r input actorUserId).Decided
      ((Call.decideAgentAccessRequest requestId (.approve input) actorUserId).program.exec
        pool.store).2 ↔
    (approvalContext pool.store r input actorUserId).Unblocked pool.store := by
  rw [exec_decide_store]
  obtain ⟨connection, s₁, a, t, hdecision, happroval⟩ := hvalidated
  obtain ⟨hfound, hpending, -, -⟩ := pending_of_exec hdecision
  have hscopes := nodup_scopes h r (mem_of_lookup hfound)
  have hid : r.id = requestId := key_of_lookup hfound
  constructor
  · intro hdecided
    by_contra hblocked
    rw [← hid] at hfound hdecided
    have hstuck : Stuck pool.store r input actorUserId :=
      ⟨h.valid, hfresh, hscopes, hfound, hpending, hblocked⟩
    obtain ⟨q, hq, happroved⟩ := hdecided.request
    have hsame := Option.some.inj (hq.symm.trans (hstuck.undecided 2))
    rw [hsame, hpending] at happroved
    cases happroved
  · exact decided_of_unblocked h.valid hfresh hscopes ⟨connection, s₁, a, t, hdecision, happroval⟩

end Lapsed

section Samples

instance [Locale] (c : ApprovalContext) (s : Store) : Decidable (c.Unblocked s) :=
  inferInstanceAs (Decidable (∀ scope ∈ c.request.scopes, ∀ e ∈ s.entitlements,
    e.activeKey = some (c.key scope) → c.reused s scope = some e))

/-- The rows have identifiers that have been generated. -/
def Store.freshCheck (s : Store) : Bool :=
  s.entitlements.all fun e => (List.range s.generated).any fun m => e.id == generatedId m

theorem freshIds_of_check {s : Store} (h : s.freshCheck = true) : s.FreshIds := by
  intro e he n hn hid
  obtain ⟨m, hm, hm'⟩ := List.any_eq_true.mp (List.all_eq_true.mp h e he)
  rw [beq_iff_eq] at hm'
  have hsame := generatedId_inj (hm'.symm.trans hid)
  have hlater := List.mem_range.mp hm
  omega

def validated [Locale] (s : Store) (requestId : Id) (input : DecideApproval) (actorUserId : Id) :
    Option AgentAccessRequest :=
  match (prepareDecision requestId actorUserId).exec s with
  | (.ok (r, _, now), s₁) =>
    match (prepareApproval r input actorUserId none now).exec s₁ with
    | (.ok _, _) => some r
    | (.error _, _) => none
  | (.error _, _) => none

theorem validated_eq_some [Locale] {s : Store} {requestId actorUserId : Id} {input : DecideApproval}
    {r : AgentAccessRequest} (h : validated s requestId input actorUserId = some r) :
    Validated s requestId input actorUserId r := by
  unfold validated at h
  split at h
  · rename_i q connection now s₁ hdecision
    obtain ⟨-, -, rfl, -⟩ := pending_of_exec hdecision
    split at h
    · rename_i a t happroval
      obtain rfl := Option.some.inj h
      exact ⟨connection, s₁, a, t, hdecision, happroval⟩
    · cases h
  · cases h

/-- A grant of a scope for some time, the end of that time, and a second request for the scope. -/
def lapsedMoves : List (Move Call) :=
  Move.alone 0 (.createScopeEntitlement (held "id-0" "list") 0) 2 ++
    Move.alone 1 (askedFor ["list"]) 16 ++ Move.alone 2 (approvedFor "id-1" (.expiring 10)) 19 ++
    Move.alone 3 (.elapse 20) 1 ++ Move.alone 4 (askedFor ["list"]) 16

def persistently : DecideApproval := ⟨.persistent, some [Sample.authority]⟩

/-- Requests for a scope and for two of them, and a grant of the first for some time, part of which
passes. -/
def renewedMoves : List (Move Call) :=
  Move.alone 0 (.createScopeEntitlement (held "id-0" "list") 0) 2 ++
    Move.alone 1 (.createScopeEntitlement (held "id-2" "write") 0) 2 ++
    Move.alone 2 (askedFor ["list"]) 16 ++ Move.alone 3 (askedFor ["list", "write"]) 16 ++
    Move.alone 4 (approvedFor "id-1" (.expiring 10)) 19 ++ Move.alone 5 (.elapse 5) 1

def holdsRequested (s : Store) (r : AgentAccessRequest) : Bool :=
  s.entitlements.any fun e => decide (e.agentIdentityId = some r.agentIdentityId) &&
    r.scopes.contains e.scope && e.active s.now

set_option maxRecDepth 10000 in
/-- A request for a scope that the Agent holds for some time yet and for another one is approved. -/
theorem reapproval_decides_renewal : ∃ pool : AccessPool, ∃ r : AgentAccessRequest,
    AccessReachable pool ∧ holdsRequested pool.store r = true ∧
      (approvalContext pool.store r persistently "u").Decided
        ((Call.decideAgentAccessRequest "id-4" (.approve persistently) "u").program.exec
          pool.store).2 := by
  have hrun : (Sample.run renewedMoves).any (fun pool => pool.store.freshCheck &&
      (validated pool.store "id-4" persistently "u").any fun r => holdsRequested pool.store r &&
        decide ((approvalContext pool.store r persistently "u").Unblocked pool.store)) = true := by
    decide +kernel
  obtain ⟨pool, hpool, hcheck⟩ := Sample.reachable_of_run hrun
  rw [Bool.and_eq_true] at hcheck
  obtain ⟨r, hr, hheld⟩ := (Option.any_eq_true _ _).mp hcheck.2
  obtain ⟨hholds, hunblocked⟩ := (Bool.and_eq_true _ _).mp hheld
  exact ⟨pool, r, hpool, hholds, (reapproval_decides_iff hpool (freshIds_of_check hcheck.1)
    (validated_eq_some hr)).mpr (of_decide_eq_true hunblocked)⟩

/-- A request for a scope whose only grants have expired cannot be approved. -/
def refusesLapsed (s : Store) (requestId : Id) (input : DecideApproval) (actorUserId : Id)
    (r : AgentAccessRequest) : Bool :=
  (s.entitlements.all fun e =>
    decide (e.agentIdentityId = some r.agentIdentityId → e.active s.now = false)) &&
  match (Call.decideAgentAccessRequest requestId (.approve input) actorUserId).program.exec s with
  | (.error _, t) => (t.findAccessRequest requestId).any (·.status == .pending)
  | (.ok _, _) => false

set_option maxRecDepth 10000 in
/-- The grant of the first approval has expired, without having been ended: the second request for
the same scope passes its validation and stays pending. -/
theorem lapsed_grant_blocks_reapproval : ∃ pool : AccessPool, ∃ r : AgentAccessRequest,
    AccessReachable pool ∧ pool.store.FreshIds ∧ Validated pool.store "id-6" persistently "u" r ∧
      refusesLapsed pool.store "id-6" persistently "u" r = true := by
  have hrun : (Sample.run lapsedMoves).any (fun pool => pool.store.freshCheck &&
      (validated pool.store "id-6" persistently "u").any fun r =>
        refusesLapsed pool.store "id-6" persistently "u" r) = true := by
    decide +kernel
  obtain ⟨pool, hpool, hcheck⟩ := Sample.reachable_of_run hrun
  rw [Bool.and_eq_true] at hcheck
  obtain ⟨r, hr, hrefuses⟩ := (Option.any_eq_true _ _).mp hcheck.2
  exact ⟨pool, r, hpool, freshIds_of_check hcheck.1, validated_eq_some hr, hrefuses⟩

end Samples

end FlareAuth
