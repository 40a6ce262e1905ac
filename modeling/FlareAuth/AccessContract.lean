import FlareAuth.AccessReads

/-!
# What stands behind each write

Every batch that issues a lease, approves a request or closes an entitlement is
computed from what the same call read before. `Justified` says from what, for
each kind of operation, and every call of the program justifies all its
operations in any interleaving.
-/

namespace FlareAuth

open Concurrent Procedure Access

abbrev AccessLog := Log Store Operation

abbrev ReadOn (log log' : AccessLog) : Prop := Log.Grown Operation.IsRead log log'

theorem earliestEntitlementExpiry_le {entitlements : List ScopeEntitlement} {t m : ℕ}
    (hm : earliestEntitlementExpiry entitlements = some m) {e : ScopeEntitlement}
    (he : e ∈ entitlements) (ht : e.expiresAt = some t) : m ≤ t := by
  refine (List.min?_eq_some_iff.mp hm).2 t ?_
  exact List.mem_filterMap.mpr ⟨e, he, ht⟩

theorem earliestEntitlementExpiry_isSome {entitlements : List ScopeEntitlement} {t : ℕ}
    {e : ScopeEntitlement} (he : e ∈ entitlements) (ht : e.expiresAt = some t) :
    ∃ m, earliestEntitlementExpiry entitlements = some m := by
  cases h : earliestEntitlementExpiry entitlements with
  | some m => exact ⟨m, rfl⟩
  | none =>
    have hnil := List.min?_eq_none_iff.mp h
    have hmem : t ∈ entitlements.filterMap (·.expiresAt) := List.mem_filterMap.mpr ⟨e, he, ht⟩
    rw [hnil] at hmem
    cases hmem

theorem nativeExpiry_le {entitlements : List ScopeEntitlement} {now t : ℕ}
    {e : ScopeEntitlement} (he : e ∈ entitlements) (ht : e.expiresAt = some t) :
    nativeExpiry entitlements now ≤ t := by
  obtain ⟨m, hm⟩ := earliestEntitlementExpiry_isSome he ht
  have hle := earliestEntitlementExpiry_le hm he ht
  simp only [nativeExpiry, hm]
  split <;> omega

theorem requiredLifetime_le {entitlements : List ScopeEntitlement} {token : TokenResponse}
    {now expiresIn : ℕ} (h : requiredLifetime entitlements token now = .ok expiresIn)
    {e : ScopeEntitlement} (he : e ∈ entitlements) {t : ℕ} (ht : e.expiresAt = some t) :
    now + expiresIn * 1000 ≤ t := by
  obtain ⟨m, hm⟩ := earliestEntitlementExpiry_isSome he ht
  have hle := earliestEntitlementExpiry_le hm he ht
  unfold requiredLifetime at h
  split at h
  · cases h
  · split at h
    · cases h
    · rw [hm] at h
      split at h
      · cases h
      · rename_i hexpiry
        cases h
        simp only [Option.any_some, decide_eq_true_eq] at hexpiry
        omega

theorem assertNativeAuthoritySelection_ok {details : List AuthorizationDetail}
    (h : assertNativeAuthoritySelection details = .ok ()) :
    isNativeAuthoritySelection details = true := by
  unfold assertNativeAuthoritySelection at h
  split at h
  · assumption
  · cases h

def Returned (call : Call) (log : AccessLog) : Except Failure Reply → Prop
  | .ok _ =>
    match call with
    | .revokeAgentPermission entitlementId _ => ∃ c earlier later, log = later ++ c :: earlier ∧
        (∃ reason leaseIds now audit,
          c.operation = .endEntitlementWithAudit entitlementId reason leaseIds now audit) ∧
        ∃ d ∈ earlier, ∃ e, d.before.findEntitlement entitlementId = some e
    | _ => True
  | .error _ => True

theorem returned_other (call : Call)
    (h : ∀ entitlementId actorUserId, call ≠ .revokeAgentPermission entitlementId actorUserId)
    (log : AccessLog) (r : Except Failure Reply) : Returned call log r := by
  cases r with
  | error e => exact trivial
  | ok reply =>
    cases call with
    | revokeAgentPermission entitlementId actorUserId => exact absurd rfl (h _ _)
    | _ => exact trivial

variable [Locale]

structure Backed (log : AccessLog) (c : IssuanceContext) : Prop where
  principal : ∃ d ∈ log, c.principal.identity ∈ d.before.directory.identities ∧
    c.principal.binding ∈ d.before.directory.bindings ∧
    c.principal.binding.agentIdentityId = c.principal.identity.id
  request : ∃ d ∈ log, d.before.findAccessRequest c.request.id = some c.request
  decided : c.request.status = .approved ∨ c.request.status = .consumed
  agent : c.request.agentIdentityId = c.principal.identityId
  entitlements : ∃ d ∈ log, ∃ now,
    d.operation = .read (.entitlementsByAgent c.principal.identityId now) ∧
    c.entitlements = contextEntitlements c.request
      (d.before.listActiveEntitlementsByAgent c.principal.identityId now)
  nonempty : c.entitlements ≠ []
  resource : ∃ d ∈ log, d.before.directory.findResource c.request.resourceId = some c.resource
  scopes : validateResourceRequestedScopes c.resource c.scopes = .ok ()

structure Issued (log : AccessLog) (i : Issuance) (c : IssuanceContext) : Prop where
  backed : Backed log c
  lease : i.lease = c.lease i.lease.id i.lease.accessToken i.lease.confirmationJkt
    i.lease.expiresAt i.lease.createdAt
  issuance : i = c.issuance i.lease i.audit
  clock : ∃ d ∈ log, d.operation = .read .clock ∧ i.lease.createdAt = d.before.now
  generated : ∃ s earlier, ReadOn (⟨.generateId, s⟩ :: earlier) log ∧ i.lease.id = s.nextId
  expiry : ∀ e ∈ c.entitlements, ∀ t, e.expiresAt = some t → i.lease.expiresAt ≤ t
  token : ∀ claims, i.lease.accessToken = .signed claims →
    isNativeAuthoritySelection c.request.authorizationDetails = true ∧
    ∃ s groups, ⟨.generateId, s⟩ ∈ log ∧ claims =
      c.claims s.nextId groups i.lease.confirmationJkt i.lease.expiresAt i.lease.createdAt

/-- An approval of the request that was read, with one decision for each of its scopes. -/
structure Prepared (log : AccessLog) (a : Approval) (c : ApprovalContext)
    (approvals : List ScopeApproval) : Prop where
  approval : a = c.approval approvals a.audit
  request : ∃ d ∈ log, d.before.findAccessRequest c.request.id = some c.request
  length : approvals.length = c.request.scopes.length
  created : ∀ e ∈ a.entitlements, ∃ id scope, e = c.entitlement id scope

/-- An entitlement of an Agent that was granted without any request. -/
def ScopeEntitlement.Direct (e : ScopeEntitlement) : Prop :=
  e.agentIdentityId.isSome → e.sourceAccessRequestId = none

def Listed (log : AccessLog) (entitlementId : Id) (leaseIds : List Id) : Prop :=
  ∃ d ∈ log, ∃ d' ∈ log,
    d.operation = .read (.tokenLeasesByEntitlement entitlementId d'.before.now) ∧
    leaseIds =
      (d.before.listActiveTokenLeasesByEntitlement entitlementId d'.before.now).map (·.id)

def Justified (log : AccessLog) (_ : Store) : Operation → Prop
  | .createAccessRequest input _ => input.scopes.Nodup
  | .issueTokenLease i => ∃ c, Issued log i c
  | .approve a => ∃ c approvals, Prepared log a c approvals
  | .endEntitlementWithAudit id _ leaseIds _ _ => Listed log id leaseIds
  | .insertScopeEntitlement e => e.Direct
  | .replaceExpiredEntitlement _ e _ => e.Direct
  | _ => True

theorem justified_of_isRead {log : AccessLog} {s : Store} {op : Operation} (h : op.IsRead) :
    Justified log s op := by
  cases op <;> first | exact trivial | exact h.elim

section Rules

variable {α β : Type} {P : AccessLog → Except Failure β → Prop}

/-- The part of a call that only reads leaves its log longer. -/
theorem reads_then {p : Access α} (h : p.Reads) {f : α → Access β} {log : AccessLog}
    (hok : ∀ log' a, ReadOn log log' → p.Returns a → (f a).Obeys Justified P log')
    (herror : ∀ log' e, ReadOn log log' → P log' (.error e)) :
    (p >>= f).Obeys Justified P log :=
  h.obeys_bind (fun _ _ _ => justified_of_isRead) hok herror

theorem ask_then {query : Query} {answer : Store → α} {f : α → Access β} {log : AccessLog}
    (h : ∀ s, (f (answer s)).Obeys Justified P (⟨.read query, s⟩ :: log)) :
    (ask query answer >>= f).Obeys Justified P log := fun s => ⟨trivial, h s⟩

theorem orThrow_then {o : Option α} {e : Failure} {f : α → Access β} {log : AccessLog}
    (hok : ∀ a, o = some a → (f a).Obeys Justified P log) (herror : P log (.error e)) :
    (orThrow o e >>= f).Obeys Justified P log := by
  cases o with
  | some a => exact hok a rfl
  | none => exact herror

/-- A procedure whose operations are justified from any log on. -/
def Justifies (p : Access α) (log : AccessLog) : Prop := p.Obeys Justified (fun _ _ => True) log

theorem justifies_reads {p : Access α} (h : p.Reads) (log : AccessLog) : Justifies p log :=
  h.obeys (fun _ _ _ => justified_of_isRead) (fun _ _ _ _ => trivial) fun _ _ _ => trivial

theorem justifies_bind {p : Access α} {f : α → Access β} {log : AccessLog} (h : Justifies p log)
    (hf : ∀ log' a, log <:+ log' → Justifies (f a) log') : Justifies (p >>= f) log :=
  Obeys.bind h (fun log' a hlog _ => hf log' a hlog) fun _ _ _ => trivial

theorem justifies_reads_bind {p : Access α} {f : α → Access β} {log : AccessLog} (h : p.Reads)
    (hf : ∀ log' a, ReadOn log log' → p.Returns a → Justifies (f a) log') :
    Justifies (p >>= f) log :=
  reads_then h hf fun _ _ _ => trivial

theorem justifies_ofExcept (r : Except Failure α) (log : AccessLog) :
    Justifies (Procedure.ofExcept r) log := justifies_reads (only_ofExcept r) log

theorem justifies_ofExcept_bind {r : Except Failure α} {f : α → Access β} {log : AccessLog}
    (h : ∀ a, r = .ok a → Justifies (f a) log) : Justifies (Procedure.ofExcept r >>= f) log := by
  cases r with
  | ok a => exact h a rfl
  | error e => exact trivial

theorem justifies_orThrow_bind {o : Option α} {e : Failure} {f : α → Access β} {log : AccessLog}
    (h : ∀ a, o = some a → Justifies (f a) log) : Justifies (orThrow o e >>= f) log := by
  cases o with
  | some a => exact h a rfl
  | none => exact trivial

theorem justifies_require_bind {c : Prop} [Decidable c] {e : Failure} {f : Unit → Access β}
    {log : AccessLog} (h : c → Justifies (f ()) log) : Justifies (require c e >>= f) log := by
  by_cases hc : c
  · rw [require_pos hc]
    exact h hc
  · rw [require_neg hc]
    exact trivial

theorem justifies_ask_bind {query : Query} {answer : Store → α} {f : α → Access β}
    {log : AccessLog} (h : ∀ s, Justifies (f (answer s)) (⟨.read query, s⟩ :: log)) :
    Justifies (ask query answer >>= f) log := fun s => ⟨trivial, h s⟩

theorem justifies_generateId_bind {f : Id → Access β} {log : AccessLog}
    (h : ∀ s, Justifies (f s.nextId) (⟨.generateId, s⟩ :: log)) :
    Justifies (generateId >>= f) log := fun s => ⟨trivial, h s⟩

theorem justifies_ite {c : Prop} [Decidable c] {p q : Access α} {log : AccessLog}
    (hp : c → Justifies p log) (hq : ¬c → Justifies q log) :
    Justifies (if c then p else q) log := by
  by_cases h : c
  · rw [if_pos h]
    exact hp h
  · rw [if_neg h]
    exact hq h

theorem justifies_commit {op : Operation} {batch : StoreBatch α} {log : AccessLog}
    (h : ∀ s, Justified log s op) : Justifies (commit op batch) log :=
  fun s => ⟨h s, justifies_ofExcept _ _⟩

theorem justifies_forEach {bs : List β} {body : β → Access Unit} (log : AccessLog)
    (h : ∀ b log', log <:+ log' → Justifies (body b) log') : Justifies (forEach bs body) log := by
  induction bs generalizing log with
  | nil => exact trivial
  | cons b bs ih =>
    refine justifies_bind (h b log List.suffix_rfl) fun log₁ _ h₁ => ?_
    exact ih log₁ fun b log₂ h₂ => h b log₂ (h₁.trans h₂)

theorem justifies_collect {bs : List β} {body : β → Access α} (log : AccessLog)
    (h : ∀ b log', log <:+ log' → Justifies (body b) log') : Justifies (collect bs body) log := by
  induction bs generalizing log with
  | nil => exact trivial
  | cons b bs ih =>
    refine justifies_bind (h b log List.suffix_rfl) fun log₁ _ h₁ => ?_
    refine justifies_bind (ih log₁ fun b log₂ h₂ => h b log₂ (h₁.trans h₂)) fun _ _ _ => trivial

end Rules

section Issuance

theorem Backed.mono {log log' : AccessLog} {c : IssuanceContext} (h : Backed log c)
    (hlog : log ⊆ log') : Backed log' c := by
  obtain ⟨p, hp, hprincipal⟩ := h.principal
  obtain ⟨q, hq, hrequest⟩ := h.request
  obtain ⟨d, hd, hactive⟩ := h.entitlements
  obtain ⟨r, hr, hresource⟩ := h.resource
  exact ⟨⟨p, hlog hp, hprincipal⟩, ⟨q, hlog hq, hrequest⟩, h.decided, h.agent,
    ⟨d, hlog hd, hactive⟩, h.nonempty, ⟨r, hlog hr, hresource⟩, h.scopes⟩

theorem justifies_storeTokenLease {c : IssuanceContext} {connection : Option ResourceConnection}
    {token : AccessToken} {jkt : String} {expiresAt now : ℕ} {log : AccessLog}
    (hbacked : Backed log c)
    (hclock : ∃ d ∈ log, d.operation = .read .clock ∧ now = d.before.now)
    (hexpiry : ∀ e ∈ c.entitlements, ∀ t, e.expiresAt = some t → expiresAt ≤ t)
    (htoken : ∀ claims, token = .signed claims →
      isNativeAuthoritySelection c.request.authorizationDetails = true ∧
      ∃ s groups, ⟨.generateId, s⟩ ∈ log ∧
        claims = c.claims s.nextId groups jkt expiresAt now) :
    Justifies (storeTokenLease c connection token jkt expiresAt now) log := by
  refine justifies_generateId_bind fun s => ?_
  refine justifies_reads_bind (reads_resourceAuditRecord _) fun log₁ audit h₁ _ => ?_
  refine justifies_bind (justifies_commit fun _ => ⟨c, ?_⟩) fun _ _ _ => ?_
  · have hlog : log ⊆ log₁ := List.Subset.trans (List.subset_cons_self _ _) h₁.subset
    obtain ⟨d, hd, hnow⟩ := hclock
    refine ⟨hbacked.mono hlog, rfl, rfl, ⟨d, hlog hd, hnow⟩, ⟨s, log, h₁, rfl⟩, hexpiry, ?_⟩
    intro claims hclaims
    obtain ⟨hselection, s', groups, hjti, hclaims⟩ := htoken claims hclaims
    exact ⟨hselection, s', groups, hlog hjti, hclaims⟩
  · exact justifies_reads (only_orThrow _ _) _

theorem justifies_issueNativeAccessToken {c : IssuanceContext} {proof : TokenProof}
    {log : AccessLog} (h : Backed log c) : Justifies (issueNativeAccessToken c proof) log := by
  refine justifies_require_bind fun _ => justifies_require_bind fun _ => ?_
  refine justifies_reads_bind (by simp) fun log₁ _ h₁ _ => ?_
  refine justifies_reads_bind (by simp) fun log₂ jkt h₂ _ => ?_
  refine justifies_ask_bind fun s => justifies_ofExcept_bind fun _ hselection => ?_
  refine justifies_reads_bind (by simp) fun log₃ groups h₃ _ => ?_
  refine justifies_generateId_bind fun s' => ?_
  have hread : (⟨.read .clock, s⟩ :: log₂ : AccessLog) ⊆ ⟨.generateId, s'⟩ :: log₃ :=
    fun d hd => .tail _ (h₃.subset hd)
  have hlog : log ⊆ ⟨.generateId, s'⟩ :: log₃ :=
    fun d hd => hread (.tail _ ((h₁.trans h₂).subset hd))
  refine justifies_bind (justifies_storeTokenLease (h.mono hlog) ⟨_, hread (.head _), rfl, rfl⟩
    ?_ ?_) fun _ _ _ => trivial
  · exact fun e he t ht => nativeExpiry_le he ht
  · intro claims hclaims
    cases hclaims
    exact ⟨assertNativeAuthoritySelection_ok hselection, s', groups, .head _, rfl⟩

theorem justifies_issueExternalAccessToken {c : IssuanceContext}
    {connection : Option ResourceConnection} {proof : TokenProof} {now : ℕ} {log : AccessLog}
    (h : Backed log c) (hclock : ∃ d ∈ log, d.operation = .read .clock ∧ now = d.before.now) :
    Justifies (issueExternalAccessToken c connection proof now) log := by
  refine justifies_orThrow_bind fun connection _ => ?_
  refine justifies_reads_bind (by simp) fun log₁ ⟨authorization, credential⟩ h₁ _ => ?_
  refine justifies_reads_bind (by simp) fun log₂ jkt h₂ _ => ?_
  refine justifies_reads_bind (by simp [refreshConnectionToken]) fun log₃ _ h₃ _ => ?_
  refine justifies_reads_bind (by simp) fun log₄ _ h₄ _ => ?_
  refine justifies_reads_bind (by simp) fun log₅ response h₅ _ => ?_
  refine justifies_ofExcept_bind fun accessToken _ => ?_
  refine justifies_ofExcept_bind fun expiresIn hexpiresIn => ?_
  refine justifies_ofExcept_bind fun _ _ => ?_
  have hlog := ((((h₁.trans h₂).trans h₃).trans h₄).trans h₅).subset
  obtain ⟨d, hd, hnow⟩ := hclock
  refine justifies_bind (justifies_storeTokenLease (h.mono hlog) ⟨d, hlog hd, hnow⟩ ?_ ?_)
    fun _ _ _ => trivial
  · exact fun e he t ht => requiredLifetime_le hexpiresIn he ht
  · intro claims hclaims
    cases hclaims

theorem justifies_issueTargetAccessToken (requestId : Id) (proof : TokenProof)
    {principal : AgentResourcePrincipal} {log : AccessLog}
    (hprincipal : ∃ d ∈ log, principal.identity ∈ d.before.directory.identities ∧
      principal.binding ∈ d.before.directory.bindings ∧
      principal.binding.agentIdentityId = principal.identity.id) :
    Justifies (issueTargetAccessToken requestId proof principal) log := by
  unfold issueTargetAccessToken findApprovedAccessRequest requireIssuableResource
  simp only [bind_assoc]
  refine justifies_ask_bind fun s₁ => justifies_orThrow_bind fun request hrequest => ?_
  refine justifies_ask_bind fun s₀ => ?_
  refine justifies_ask_bind fun s₂ => justifies_require_bind fun hne => ?_
  refine justifies_ask_bind fun s₃ => justifies_orThrow_bind fun resource hresource => ?_
  refine justifies_ofExcept_bind fun _ hscopes => ?_
  refine justifies_reads_bind (by simp) fun log₂ _ h₂ _ => justifies_require_bind fun _ => ?_
  have hmem := h₂.subset
  have hfound := (Option.filter_eq_some_iff.mp hrequest).1
  have hguard := (Option.filter_eq_some_iff.mp hrequest).2
  simp only [decide_eq_true_eq] at hguard
  have hid : request.id = requestId := Relational.key_of_lookup hfound
  have hbacked : Backed log₂ ⟨principal, request, contextEntitlements request
      (s₂.listActiveEntitlementsByAgent principal.identityId s₀.now), resource⟩ := by
    obtain ⟨d, hd, hp⟩ := hprincipal
    refine ⟨⟨d, hmem ?_, hp⟩, ⟨⟨.read (.accessRequest requestId), s₁⟩, hmem ?_, hid ▸ hfound⟩,
      hguard.2, hguard.1, ⟨⟨.read (.entitlementsByAgent principal.identityId s₀.now), s₂⟩, hmem ?_,
      s₀.now, rfl, rfl⟩, hne, ⟨⟨.read .directory, s₃⟩, hmem ?_, ?_⟩, hscopes⟩
    · exact .tail _ (.tail _ (.tail _ (.tail _ hd)))
    · exact .tail _ (.tail _ (.tail _ (.head _)))
    · exact .tail _ (.head _)
    · exact .head _
    · exact (Option.filter_eq_some_iff.mp hresource).1
  simp only [pure_eq, done_bind]
  refine justifies_reads_bind (by simp) fun log₃ connection h₃ _ => ?_
  refine justifies_ite (fun _ => ?_) fun _ => ?_
  · refine justifies_issueExternalAccessToken (hbacked.mono h₃.subset)
      ⟨⟨.read .clock, s₀⟩, ?_, rfl, rfl⟩
    exact h₃.subset (hmem (.tail _ (.tail _ (.head _))))
  · refine justifies_ofExcept_bind fun _ _ => ?_
    exact justifies_issueNativeAccessToken (hbacked.mono h₃.subset)

end Issuance

section Approval

theorem returns_approveScope {c : ApprovalContext} {existing : List ScopeEntitlement}
    {scope : String} {approval : ScopeApproval}
    (h : (c.approveScope existing scope).Returns approval) {e : ScopeEntitlement}
    (he : approval.created = some e) : ∃ id, e = c.entitlement id scope := by
  unfold ApprovalContext.approveScope at h
  split at h
  · dsimp only at h
    split at h <;> cases h <;> cases he
  · obtain ⟨id, _, h⟩ := returns_bind.mp h
    cases h
    exact ⟨id, (Option.some.inj he).symm⟩

/-- What the input of an approval's batch was computed from. -/
theorem returns_prepareApproval {request : AgentAccessRequest} {input : DecideApproval}
    {actorUserId : Id} {reasonCode : Option String} {now : ℕ} {a : Approval}
    (h : (prepareApproval request input actorUserId reasonCode now).Returns a) :
    ∃ c approvals, a = ApprovalContext.approval c approvals a.audit ∧ c.request = request ∧
      approvals.length = request.scopes.length ∧
      ∀ e ∈ a.entitlements, ∃ id scope, e = c.entitlement id scope := by
  simp only [prepareApproval, returns_bind] at h
  obtain ⟨resource, _, _, _, connection, _, _, _, entitlements, _, approvals, happrovals,
      audit, _, h⟩ := h
  cases h
  obtain ⟨hlength, hall⟩ := returns_collect happrovals
  refine ⟨_, approvals, rfl, rfl, hlength, fun e he => ?_⟩
  obtain ⟨approval, hmem, hcreated⟩ := List.mem_filterMap.mp he
  obtain ⟨scope, _, hreturns⟩ := hall approval hmem
  obtain ⟨id, rfl⟩ := returns_approveScope hreturns hcreated
  exact ⟨id, scope, rfl⟩

theorem justifies_approve {request : AgentAccessRequest} {input : DecideApproval}
    {actorUserId : Id} {reasonCode : Option String} {now : ℕ} {log : AccessLog}
    {f : ApprovalResult → Access AgentAccessRequest}
    (hrequest : ∃ d ∈ log, d.before.findAccessRequest request.id = some request)
    (hf : ∀ log' result, log <:+ log' → Justifies (f result) log') :
    Justifies (prepareApproval request input actorUserId reasonCode now >>= fun approval =>
      approveAccessRequestWithEntitlements approval >>= f) log := by
  refine justifies_reads_bind (by simp) fun log₁ approval h₁ hreturns => ?_
  refine justifies_bind (justifies_commit fun s => ?_) fun log₂ result h₂ =>
    hf log₂ result (h₁.suffix.trans h₂)
  obtain ⟨c, approvals, happroval, rfl, hlength, hcreated⟩ := returns_prepareApproval hreturns
  obtain ⟨d, hd, hfound⟩ := hrequest
  exact ⟨c, approvals, happroval, ⟨d, h₁.subset hd, hfound⟩, hlength, hcreated⟩

theorem justifies_decideAttempts (requestId : Id) (input : DecideAgentAccessRequest)
    (actorUserId : Id) (reasonCode : Option String) (attempts : ℕ) (log : AccessLog) :
    Justifies (decideAttempts requestId input actorUserId reasonCode attempts) log := by
  induction attempts generalizing log with
  | zero => exact trivial
  | succ attempts ih =>
    unfold decideAttempts prepareDecision findPendingAccessRequest
    simp only [bind_assoc]
    refine justifies_ask_bind fun s => ?_
    refine justifies_reads_bind (by simp) fun log₁ now h₁ _ => ?_
    refine justifies_orThrow_bind fun request hrequest => ?_
    refine justifies_reads_bind (by simp) fun log₂ connection h₂ _ => ?_
    refine justifies_reads_bind (by simp) fun log₃ now' h₃ _ => ?_
    have hfound := (Option.filter_eq_some_iff.mp hrequest).1
    have hid : request.id = requestId := Relational.key_of_lookup hfound
    simp only [pure_eq, done_bind]
    cases input with
    | deny =>
      refine justifies_reads_bind (by simp) fun log₄ audit _ _ => ?_
      exact justifies_bind (justifies_commit fun s => trivial) fun _ _ _ =>
        justifies_reads (by simp) _
    | approve input' =>
      have hmem := ((h₁.trans h₂).trans h₃).subset List.mem_cons_self
      refine justifies_approve ⟨_, hmem, hid ▸ hfound⟩ fun log result _ => ?_
      cases result with
      | approved entitlements approved => exact justifies_reads (by simp) _
      | resourceUnavailable => exact trivial
      | requestChanged => exact trivial
      | entitlementsChanged =>
        refine justifies_reads_bind (by simp) fun log found _ _ => ?_
        cases found with
        | none => exact ih log
        | some decided =>
          exact justifies_ite (fun _ => justifies_reads (by simp) _) fun _ => ih log

def DraftsFor (scopes : List String) (p : Access RequestDraft) : Prop :=
  ∀ draft, p.Returns draft → draft.scopes = scopes

omit [Locale] in
theorem draftsFor_bind {α : Type} {scopes : List String} {p : Access α}
    {f : α → Access RequestDraft} (h : ∀ a, DraftsFor scopes (f a)) :
    DraftsFor scopes (p >>= f) := by
  intro draft hreturns
  obtain ⟨a, -, hrest⟩ := returns_bind.mp hreturns
  exact h a draft hrest

omit [Locale] in
theorem draftsFor_ite {c : Prop} [Decidable c] {scopes : List String} {p q : Access RequestDraft}
    (hp : DraftsFor scopes p) (hq : DraftsFor scopes q) :
    DraftsFor scopes (if c then p else q) := by
  split
  · exact hp
  · exact hq

theorem draftsFor_draftAccessRequest (input : CreateAgentAccessRequest)
    (principal : AgentResourcePrincipal) : DraftsFor (Text.sort (Text.unique input.scopes))
      (draftAccessRequest input principal) := by
  unfold draftAccessRequest
  dsimp only
  -- the branches differ in their checks, and each ends with a draft for the same scopes
  repeat' first
    | refine draftsFor_bind fun _ => ?_
    | refine draftsFor_ite ?_ ?_
    | (rintro draft rfl; rfl)

theorem justifies_createAgentAccessRequest (input : CreateAgentAccessRequest)
    (principal : AgentResourcePrincipal) (log : AccessLog) :
    Justifies (createAgentAccessRequest input principal) log := by
  have hautomatic : ∀ draft id owner log, Justifies (approveAutomatically draft id owner) log :=
    fun draft id owner log => justifies_decideAttempts id
      (.approve ⟨.persistent, some draft.authorizationDetails⟩) owner
      (some "automatic_scope_policy") 2 log
  have hstore : ∀ draft log, draft.scopes.Nodup →
      Justifies (storeAccessRequest draft input.reason principal) log := by
    intro draft log hnodup
    refine justifies_reads_bind (by simp) fun log₁ _ _ _ => ?_
    refine justifies_reads_bind (by simp) fun log₂ _ _ _ => ?_
    refine justifies_reads_bind (by simp) fun log₃ _ _ _ => ?_
    exact justifies_bind (justifies_commit fun _ => hnodup) fun _ _ _ => justifies_reads (by simp) _
  refine justifies_reads_bind (by simp) fun log draft _ hreturns => ?_
  have hnodup : draft.scopes.Nodup := by
    rw [draftsFor_draftAccessRequest input principal draft hreturns]
    exact (Text.sort_perm _).nodup_iff.mpr (Text.nodup_unique input.scopes)
  refine justifies_reads_bind (by simp [findMatchingRequest]) fun log pending _ _ => ?_
  cases pending with
  | some pending => exact justifies_ite (fun _ => hautomatic _ _ _ _) fun _ => trivial
  | none =>
    refine justifies_bind (hstore draft log hnodup) fun log created _ => ?_
    exact justifies_ite (fun _ => hautomatic _ _ _ _) fun _ => trivial

theorem justifies_createScopeEntitlement {input : ScopeEntitlement} (hdirect : input.Direct)
    (now : ℕ) (log : AccessLog) : Justifies (createScopeEntitlement input now) log := by
  have hmerge : ∀ existing log, Justifies (mergeScopeEntitlement existing input now) log := by
    intro existing log
    refine justifies_ite (fun _ => ?_) fun _ => justifies_ite (fun _ => trivial) fun _ => ?_
    · exact justifies_bind (justifies_commit fun _ => hdirect) fun _ _ _ => trivial
    · exact justifies_bind (justifies_commit fun _ => trivial) fun _ _ _ =>
        justifies_reads (by simp) _
  refine justifies_ask_bind fun s => ?_
  split
  · exact hmerge _ _
  · refine justifies_bind (justifies_commit fun _ => hdirect) fun log inserted _ => ?_
    cases inserted with
    | some inserted => exact trivial
    | none =>
      refine justifies_ask_bind fun s => justifies_orThrow_bind fun existing _ => ?_
      exact hmerge existing _

theorem justifies_createAgentPermission (agentId : Id) (input : CreateAgentPermission)
    (actorUserId : Id) (organizationId : Option Id) (log : AccessLog) :
    Justifies (createAgentPermission agentId input actorUserId organizationId) log := by
  refine justifies_reads_bind (by simp [controlsAgentIdentity]) fun log _ _ _ => ?_
  refine justifies_reads_bind (by simp) fun log _ _ _ => ?_
  refine justifies_reads_bind (by simp) fun log _ _ _ => ?_
  refine justifies_reads_bind (by simp) fun log resource _ _ => ?_
  refine justifies_reads_bind (by simp) fun log now _ _ => ?_
  refine justifies_reads_bind (by simp [requireFutureExpiry]) fun log _ _ _ => ?_
  refine justifies_reads_bind (by simp) fun log selected _ _ => ?_
  obtain ⟨connectionId, selections⟩ := selected
  refine justifies_reads_bind (by simp) fun log _ _ _ => ?_
  refine justifies_bind (justifies_collect log fun selection log _ => ?_) fun _ _ _ => trivial
  refine justifies_collect log fun scope log _ => ?_
  refine justifies_reads_bind (by simp) fun log id _ _ => ?_
  exact justifies_createScopeEntitlement (fun _ => rfl) now log

end Approval

section Revocation

theorem justifies_revokeTokenLeaseAtTarget (lease : TokenLease) (now : ℕ) (persist : Bool)
    (log : AccessLog) : Justifies (revokeTokenLeaseAtTarget lease now persist) log := by
  refine justifies_reads_bind (by simp) fun log _ _ _ => ?_
  exact justifies_ite (fun _ => justifies_commit fun _ => trivial) fun _ => trivial

/-- The closing batch of a revocation gets the leases that the revocation listed. -/
theorem listed_then {α : Type} {entitlement : ScopeEntitlement} {log : AccessLog}
    {P : AccessLog → Except Failure α → Prop} {f : List Id → Access α} {d : Event Store Operation}
    (hd : d ∈ log)
    (hok : ∀ log' ids, log <:+ log' → Listed log' entitlement.id ids →
      (f ids).Obeys Justified P log')
    (herror : ∀ log' e, log <:+ log' → P log' (.error e)) :
    (revokeEntitlementTokenLeasesAtTarget entitlement d.before.now >>= f).Obeys
      Justified P log := by
  unfold revokeEntitlementTokenLeasesAtTarget listActiveTokenLeasesByEntitlement
  simp only [bind_assoc]
  refine ask_then fun s => ?_
  have hcons : log <:+ ⟨.read (.tokenLeasesByEntitlement entitlement.id d.before.now), s⟩ :: log :=
    List.suffix_cons _ _
  refine reads_then (by simp [revokeTokenLeaseAtTarget]) (fun log' _ hlog _ => ?_)
    fun log' e hlog => herror log' e (hcons.trans hlog.suffix)
  refine hok log' _ (hcons.trans hlog.suffix) ⟨_, hlog.subset List.mem_cons_self, d, ?_, rfl, rfl⟩
  exact hlog.subset (List.mem_cons_of_mem _ hd)

theorem justifies_closing {entitlement : ScopeEntitlement} {log : AccessLog}
    {d : Event Store Operation} (hd : d ∈ log) (input : AuditInput) :
    Justifies (do
      let leaseIds ← revokeEntitlementTokenLeasesAtTarget entitlement d.before.now
      let audit ← resourceAuditRecord input
      let _ ← endEntitlementWithAudit entitlement.id .revoked leaseIds d.before.now audit) log := by
  refine listed_then hd (fun log₁ ids h₁ hlisted => ?_) fun _ _ _ => trivial
  refine justifies_reads_bind (by simp) fun log₂ audit h₂ _ => ?_
  refine justifies_bind (justifies_commit fun s => ?_) fun _ _ _ => trivial
  obtain ⟨l, hl, c, hc, hquery, hids⟩ := hlisted
  exact ⟨l, h₂.subset hl, c, h₂.subset hc, hquery, hids⟩

theorem justifies_revokeAgentPermission (entitlementId actorUserId : Id) (log : AccessLog) :
    Justifies (revokeAgentPermission entitlementId actorUserId) log := by
  refine justifies_reads_bind (by simp) fun log ⟨entitlement, request, connection⟩ _ _ => ?_
  refine justifies_ask_bind fun s => ?_
  exact justifies_closing (d := ⟨.read .clock, s⟩) List.mem_cons_self _

theorem justifies_revokeAgentResourceAccess (agentIdentityId : Id) (log : AccessLog) :
    Justifies (revokeAgentResourceAccess agentIdentityId) log := by
  refine justifies_reads_bind (by simp) fun log now _ _ => ?_
  refine justifies_reads_bind (by simp) fun log entitlements _ _ => ?_
  refine justifies_forEach log fun entitlement log _ => ?_
  refine justifies_bind ?_ fun log _ _ => justifies_bind (justifies_commit fun _ => trivial)
    fun _ _ _ => trivial
  refine justifies_reads_bind (by simp) fun log leases _ _ => ?_
  exact justifies_forEach log fun lease log _ =>
    justifies_revokeTokenLeaseAtTarget lease now true log

theorem justifies_revokeAgentResourceLeasesForBinding (bindingId : Id) (log : AccessLog) :
    Justifies (revokeAgentResourceLeasesForBinding bindingId) log := by
  refine justifies_reads_bind (by simp) fun log now _ _ => ?_
  refine justifies_reads_bind (by simp) fun log leases _ _ => ?_
  exact justifies_forEach log fun lease log _ =>
    justifies_revokeTokenLeaseAtTarget lease now true log

theorem justifies_revokeUncoveredEntitlements (connection : ResourceConnection)
    (required : Bool) (controllerUserId : Id) {log : AccessLog} {d : Event Store Operation}
    (hd : d ∈ log) :
    Justifies (revokeUncoveredEntitlements connection required controllerUserId d.before.now)
      log := by
  refine justifies_reads_bind (by simp) fun log₁ entitlements h₁ _ => ?_
  refine justifies_forEach log₁ fun entitlement log₂ h₂ => ?_
  exact justifies_closing ((h₁.suffix.trans h₂).subset hd) _

theorem justifies_revokeResourceConnection (connectionId actorUserId : Id) (log : AccessLog) :
    Justifies (revokeResourceConnection connectionId actorUserId) log := by
  refine justifies_reads_bind (by simp) fun log connection _ _ => ?_
  refine justifies_reads_bind (by simp) fun log _ _ _ => ?_
  refine justifies_reads_bind (by simp) fun log now _ _ => ?_
  refine justifies_reads_bind (by simp) fun log entitlements _ _ => ?_
  refine justifies_bind (justifies_forEach log fun e log _ =>
    justifies_revokeAgentPermission e.id actorUserId log) fun log _ _ => ?_
  refine justifies_reads_bind (by simp) fun log now _ _ => ?_
  refine justifies_reads_bind (by simp) fun log active _ _ => ?_
  exact justifies_reads_bind (by simp) fun log _ _ _ => justifies_commit fun _ => trivial

theorem justifies_disconnectProviderConnection (connectionId actorUserId : Id)
    (log : AccessLog) : Justifies (disconnectProviderConnection connectionId actorUserId) log := by
  refine justifies_reads_bind (by simp) fun log _ _ _ => ?_
  refine justifies_reads_bind (by simp) fun log _ _ _ => ?_
  refine justifies_reads_bind (by simp) fun log _ _ _ => ?_
  refine justifies_reads_bind (by simp) fun log _ _ _ => ?_
  refine justifies_reads_bind (by simp) fun log connections _ _ => ?_
  refine justifies_bind (justifies_forEach log fun c log _ =>
    justifies_revokeResourceConnection c.id actorUserId log) fun log _ _ => ?_
  refine justifies_reads_bind (by simp) fun log current _ _ => ?_
  exact justifies_reads_bind (by simp) fun log _ _ _ => justifies_commit fun _ => trivial

theorem justifies_revokeResourceAuthorizationsByConnector (connectorId : Id) (log : AccessLog) :
    Justifies (revokeResourceAuthorizationsByConnector connectorId) log := by
  refine justifies_reads_bind (by simp) fun log _ _ _ => ?_
  exact justifies_reads_bind (by simp) fun log _ _ _ => justifies_commit fun _ => trivial

theorem justifies_deleteResource (resourceId : Id) (controllerUserId : Option Id)
    (log : AccessLog) : Justifies (deleteResource resourceId controllerUserId) log := by
  refine justifies_reads_bind (by simp) fun log _ _ _ => ?_
  refine justifies_reads_bind (by simp) fun log _ _ _ => ?_
  refine justifies_reads_bind (by simp) fun log _ _ _ => ?_
  refine justifies_reads_bind (by simp) fun log resource _ _ => ?_
  refine justifies_reads_bind (by simp) fun log _ _ _ => ?_
  refine justifies_reads_bind (by simp) fun log _ _ _ => ?_
  exact justifies_reads_bind (by simp) fun log _ _ _ => justifies_commit fun _ => trivial

theorem returned_revokeAgentPermission (entitlementId actorUserId : Id) :
    (Call.revokeAgentPermission entitlementId actorUserId).program.Obeys Justified
      (Returned (.revokeAgentPermission entitlementId actorUserId)) [] := by
  unfold Call.program FlareAuth.revokeAgentPermission prepareRevocation
  simp only [bind_assoc]
  refine ask_then fun s₀ => orThrow_then (fun e he => ?_) trivial
  have hfound := (Option.filter_eq_some_iff.mp he).1
  obtain rfl : e.id = entitlementId := Relational.key_of_lookup hfound
  refine reads_then ?_ (fun log₁ prepared h₁ hprepared => ?_) fun _ _ _ => trivial
  · split <;> simp
  have hsame : prepared.1 = e := by
    split at hprepared
    all_goals
      simp only [returns_bind] at hprepared
      obtain ⟨_, _, _, _, _, _, hdone⟩ := hprepared
      exact (congrArg Prod.fst hdone).symm
  obtain ⟨e', request, connection⟩ := prepared
  obtain rfl : e' = e := hsame
  refine ask_then fun s => ?_
  refine listed_then (d := ⟨.read .clock, s⟩) List.mem_cons_self (fun log₂ ids h₂ hlisted => ?_)
    fun _ _ _ => trivial
  refine reads_then (by simp) (fun log₃ audit h₃ _ => ?_) fun _ _ _ => trivial
  obtain ⟨l, hl, c, hc, hlisted⟩ := hlisted
  intro t
  refine ⟨⟨l, h₃.subset hl, c, h₃.subset hc, hlisted⟩, ?_⟩
  refine reads_then (only_ofExcept _) (fun log₄ found h₄ _ => ?_) fun _ _ _ => trivial
  obtain ⟨new, hlog₄, _⟩ := h₄
  refine ⟨_, _, new, hlog₄, ⟨_, _, _, _, rfl⟩, ⟨.read (.entitlement e'.id), s₀⟩, ?_, e', hfound⟩
  exact h₃.subset (h₂.subset (List.mem_cons_of_mem _ (h₁.subset List.mem_cons_self)))

end Revocation

/-- A call of which nothing is claimed when it returns. -/
theorem contract_of_justifies {α : Type} {p : Access α} {reply : α → Reply} {call : Call}
    {log : AccessLog} (hreturned : ∀ log r, Returned call log r) (h : Justifies p log) :
    (p >>= fun a => done (reply a)).Obeys Justified (Returned call) log :=
  Obeys.bind h (fun _ _ _ _ => hreturned _ _) fun _ _ _ => hreturned _ _

theorem reads_call_then {α : Type} {p : Access α} {f : α → Access Reply} {call : Call}
    {log : AccessLog} (hreturned : ∀ log r, Returned call log r) (h : p.Reads)
    (hf : ∀ log' a, ReadOn log log' → p.Returns a →
      (f a).Obeys Justified (Returned call) log') :
    (p >>= f).Obeys Justified (Returned call) log :=
  reads_then h hf fun _ _ _ => hreturned _ _

/-- Every call justifies its operations, and a revocation that returns has closed its
entitlement. -/
theorem program_contract (call : Call) : call.program.Obeys Justified (Returned call) [] := by
  have hother := returned_other call
  cases call with
  | revokeAgentPermission entitlementId actorUserId =>
    exact returned_revokeAgentPermission entitlementId actorUserId
  | createAgentAccessRequest agent input =>
    refine reads_call_then (hother nofun) (by simp) fun log principal _ _ => ?_
    exact contract_of_justifies (hother nofun)
      (justifies_createAgentAccessRequest input principal log)
  | decideAgentAccessRequest requestId input actorUserId =>
    exact contract_of_justifies (hother nofun)
      (justifies_decideAttempts requestId input actorUserId none 2 [])
  | createAgentPermission agentId input actorUserId organizationId =>
    exact contract_of_justifies (hother nofun)
      (justifies_createAgentPermission agentId input actorUserId organizationId [])
  | createScopeEntitlement input now =>
    by_cases h : input.agentIdentityId.isNone ∧ input.ended.isNone
    · simp only [Call.program, if_pos h]
      have hdirect : input.Direct := by
        intro hagent
        rw [Option.isNone_iff_eq_none.mp h.1] at hagent
        cases hagent
      exact contract_of_justifies (hother nofun) (justifies_createScopeEntitlement hdirect now [])
    · simp only [Call.program, if_neg h]
      exact hother nofun _ _
  | issueTargetAccessToken requestId proof agent =>
    unfold Call.program authenticateAgent
    simp only [bind_assoc]
    refine ask_then fun s => ?_
    dsimp only
    cases hfound : s.directory.findActiveAgent agent with
    | none => exact hother nofun _ _
    | some found =>
      simp only [orThrow_some, done_bind, pure_eq]
      refine contract_of_justifies (hother nofun)
        (justifies_issueTargetAccessToken requestId proof ?_)
      exact ⟨_, List.mem_cons_self, Directory.findActiveAgent_mem hfound⟩
  | revokeAgentResourceAccess agentIdentityId =>
    exact contract_of_justifies (hother nofun)
      (justifies_revokeAgentResourceAccess agentIdentityId [])
  | revokeAgentResourceLeasesForBinding bindingId =>
    exact contract_of_justifies (hother nofun)
      (justifies_revokeAgentResourceLeasesForBinding bindingId [])
  | revokeUncoveredEntitlements connectionId required controllerUserId =>
    refine reads_call_then (hother nofun) (by simp) fun log _ _ _ => ?_
    refine reads_call_then (hother nofun) (by simp) fun log connection _ _ => ?_
    refine ask_then fun s => contract_of_justifies (hother nofun) ?_
    exact justifies_revokeUncoveredEntitlements connection required controllerUserId
      (d := ⟨.read .clock, s⟩) List.mem_cons_self
  | revokeResourceConnection connectionId actorUserId =>
    exact contract_of_justifies (hother nofun)
      (justifies_revokeResourceConnection connectionId actorUserId [])
  | disconnectProviderConnection connectionId actorUserId =>
    exact contract_of_justifies (hother nofun)
      (justifies_disconnectProviderConnection connectionId actorUserId [])
  | resetConnector connectorId =>
    exact contract_of_justifies (hother nofun)
      (justifies_revokeResourceAuthorizationsByConnector connectorId [])
  | deleteResource resourceId controllerUserId =>
    exact contract_of_justifies (hother nofun)
      (justifies_deleteResource resourceId controllerUserId [])
  | endEntitlementsById ids =>
    refine reads_call_then (hother nofun) (by simp) fun log now _ _ => ?_
    exact contract_of_justifies (hother nofun) (justifies_commit fun _ => trivial)
  | elapse milliseconds => exact fun s => ⟨trivial, trivial⟩
  | outside world => exact fun s => ⟨trivial, trivial⟩
  | administer change => exact fun s => ⟨trivial, trivial⟩

end FlareAuth
