import FlareAuth.AccountScopes
import FlareAuth.TokenLeases

/-!
# What selects entitlements and what guards a lease

An issuance selects the entitlements of its Context by comparing details in any
order; the insert of the lease compares the hash of the details in their order.
-/

namespace FlareAuth

open Concurrent Procedure Access Relational

section Guards

variable [Locale]

structure PreparedToken where
  context : IssuanceContext
  connection : Option ResourceConnection
  token : AccessToken
  confirmationJkt : String
  expiresAt : ℕ
  now : ℕ
  expiresIn : ℕ

/-- `issueNativeAccessToken` up to its batch. -/
def prepareNativeToken (c : IssuanceContext) (proof : TokenProof) : Access PreparedToken := do
  require (c.request.connectionId = none)
    (forbidden "Native API resource grants cannot use account connections.")
  require (proof.signerIssuer = c.principal.issuer)
    (forbidden "Agent identity does not belong to the active OAuth issuer.")
  requireCurrentNativeAuthorityContext c.principal.identity.ownerUserId
    c.request.authorizationDetails
  let confirmationJkt ← call (·.dpopThumbprint proof.dpopProof proof.tokenRequestUrl)
  let now ← clock
  let expiresAt := nativeExpiry c.entitlements now
  Procedure.ofExcept (assertNativeAuthoritySelection c.request.authorizationDetails)
  let groups ← ask .outside fun s => c.tokenOrganizationId.elim [] fun organizationId =>
    s.world.teamNames organizationId c.principal.identity.ownerUserId
  let jti ← generateId
  return ⟨c, none, .signed (c.claims jti groups confirmationJkt expiresAt now), confirmationJkt,
    expiresAt, now, max 1 ((expiresAt - now) / 1000)⟩

/-- `issueExternalAccessToken` up to its batch. -/
def prepareExternalToken (c : IssuanceContext) (connection : Option ResourceConnection)
    (proof : TokenProof) (now : ℕ) : Access PreparedToken := do
  let connection ← orThrow (connection.filter (·.status = .active))
    (forbidden "Active external API resource grant is required.")
  let (authorization, credential) ← prepareExternalIssuance c connection
  let confirmationJkt ← call (·.dpopThumbprint proof.dpopProof authorization.tokenEndpoint)
  let _ ← refreshConnectionToken credential
  let _ ← call (·.actorGrant authorization.tokenEndpoint)
  let response ← call
    (·.tokenExchange authorization.tokenEndpoint c.resource.resourceUrl (Text.join c.scopes))
  let accessToken ← Procedure.ofExcept (requiredAccessToken response)
  let expiresIn ← Procedure.ofExcept (requiredLifetime c.entitlements response now)
  Procedure.ofExcept (checkIssuedAuthority c response)
  return ⟨c, some connection, .external accessToken, confirmationJkt, now + expiresIn * 1000, now,
    expiresIn⟩

/-- The context of an issuance, from the reads at its beginning, with its connection and time. -/
def readIssuanceContext (requestId : Id) (principal : AgentResourcePrincipal) :
    Access (IssuanceContext × Option ResourceConnection × ℕ) := do
  let request ← findApprovedAccessRequest requestId principal.identityId
  let now ← clock
  let active ← listActiveEntitlementsByAgent principal.identityId now
  let entitlements := contextEntitlements request active
  require (entitlements ≠ [])
    (forbidden "The selected Resource Context has no active Permissions.")
  let resource ← requireIssuableResource request
    (Text.sort (entitlements.map (·.scope))) principal.identity.ownerUserId
  let connection ← look fun d => request.connectionId.bind d.findConnection
  return (⟨principal, request, entitlements, resource⟩, connection, now)

/-- `issueTargetAccessToken` up to its batch. -/
def prepareTargetToken (requestId : Id) (proof : TokenProof) (principal : AgentResourcePrincipal) :
    Access PreparedToken := do
  let (context, connection, now) ← readIssuanceContext requestId principal
  if context.resource.authorizationModel = .external then
    prepareExternalToken context connection proof now
  else
    Procedure.ofExcept (assertAuthorizationDetailsSelection context.resource connection
      context.request.authorizationDetails)
    prepareNativeToken context proof

def PreparedToken.store (p : PreparedToken) : Access IssuedToken := do
  let lease ← storeTokenLease p.context p.connection p.token p.confirmationJkt p.expiresAt p.now
  return ⟨lease, p.expiresIn, p.context.resource.resourceUrl⟩

theorem issueNativeAccessToken_eq (c : IssuanceContext) (proof : TokenProof) :
    issueNativeAccessToken c proof = prepareNativeToken c proof >>= PreparedToken.store := by
  simp only [issueNativeAccessToken, prepareNativeToken, PreparedToken.store, bind_assoc,
    pure_bind]

theorem issueExternalAccessToken_eq (c : IssuanceContext) (connection : Option ResourceConnection)
    (proof : TokenProof) (now : ℕ) : issueExternalAccessToken c connection proof now =
      prepareExternalToken c connection proof now >>= PreparedToken.store := by
  simp only [issueExternalAccessToken, prepareExternalToken, PreparedToken.store, bind_assoc,
    pure_bind]

/-- An issuance prepares a token, then stores it. -/
theorem issueTargetAccessToken_eq (requestId : Id) (proof : TokenProof)
    (principal : AgentResourcePrincipal) : issueTargetAccessToken requestId proof principal =
      prepareTargetToken requestId proof principal >>= PreparedToken.store := by
  have hite {c : Prop} [Decidable c] (p q : Access PreparedToken) :
      (if c then p else q) >>= PreparedToken.store =
        if c then p >>= PreparedToken.store else q >>= PreparedToken.store :=
    apply_ite (· >>= PreparedToken.store) c p q
  simp only [issueTargetAccessToken, prepareTargetToken, readIssuanceContext, bind_assoc,
    pure_bind, issueNativeAccessToken_eq, issueExternalAccessToken_eq, hite]

structure IssuanceContext.ReadOf (c : IssuanceContext) (s : Store) : Prop where
  request : s.findAccessRequest c.request.id = some c.request
  decided : c.request.status = .approved ∨ c.request.status = .consumed
  agent : c.request.agentIdentityId = c.principal.identityId
  entitlements : c.entitlements = contextEntitlements c.request
    (s.listActiveEntitlementsByAgent c.principal.identityId s.now)
  resource : (s.directory.activeResource c.request.resourceId).isSome = true

variable {s t u : Store} {requestId : Id} {principal : AgentResourcePrincipal} {proof : TokenProof}
  {c : IssuanceContext} {connection : Option ResourceConnection} {now : ℕ} {p : PreparedToken}

theorem readOf_of_exec
    (h : (readIssuanceContext requestId principal).exec s = (.ok (c, connection, now), t)) :
    c.ReadOf s ∧ c.principal = principal ∧ s.ReadTo t ∧ now = s.now ∧
      connection = c.request.connectionId.bind s.directory.findConnection := by
  unfold readIssuanceContext findApprovedAccessRequest requireIssuableResource findAccessRequest
    listActiveEntitlementsByAgent at h
  simp only [bind_assoc] at h
  rw [exec_ask_bind] at h
  obtain ⟨request, hrequest, h⟩ := exec_orThrow_bind h
  rw [exec_clock_bind, exec_ask_bind] at h
  obtain ⟨-, h⟩ := exec_require_bind h
  rw [exec_look_bind] at h
  obtain ⟨resource, hresource, h⟩ := exec_orThrow_bind h
  obtain ⟨_, -, h⟩ := exec_ofExcept_bind h
  obtain ⟨organizationIds, v, -, hv, h⟩ := exec_reads_bind (by simp) h
  obtain ⟨-, h⟩ := exec_require_bind h
  rw [pure_bind, exec_look_bind] at h
  obtain ⟨hanswer, rfl⟩ := Prod.mk.inj h
  obtain ⟨rfl, rfl, rfl⟩ : _ = c ∧ _ = connection ∧ _ = now := by
    have := Except.ok.inj hanswer
    simpa only [Prod.mk.injEq] using this
  obtain ⟨hfound, hguard⟩ := Option.filter_eq_some_iff.mp hrequest
  rw [decide_eq_true_eq] at hguard
  obtain ⟨hresource, henabled⟩ := Option.filter_eq_some_iff.mp hresource
  have hid : request.id = requestId := key_of_lookup hfound
  have hread : IssuanceContext.ReadOf ⟨principal, request, contextEntitlements request
      (s.listActiveEntitlementsByAgent principal.identityId s.now), resource⟩ s := by
    refine ⟨?_, hguard.2, hguard.1, rfl, Directory.activeResource_of_found hresource henabled⟩
    change s.findAccessRequest request.id = some request
    rw [hid]
    exact hfound
  refine ⟨hread, rfl, hv, rfl, ?_⟩
  rw [hv.directory_eq]

structure PreparedToken.ReadOf (p : PreparedToken) (s : Store) : Prop where
  context : p.context.ReadOf s
  now : p.now = s.now
  account : p.context.request.connectionId.all s.directory.activeConnection = true
  token : ∀ claims, p.token = .signed claims → ∃ t, s.ReadTo t ∧ claims.jti = t.nextId

theorem readOf_of_native (hcontext : c.ReadOf s) (hs : s.ReadTo t)
    (h : (prepareNativeToken c proof).exec t = (.ok p, u)) :
    p.ReadOf s ∧ p.context = c ∧ s.ReadTo u := by
  unfold prepareNativeToken at h
  obtain ⟨hconnection, h⟩ := exec_require_bind h
  obtain ⟨-, h⟩ := exec_require_bind h
  obtain ⟨_, t₁, -, ht₁, h⟩ := exec_reads_bind (by simp) h
  obtain ⟨jkt, t₂, -, ht₂, h⟩ := exec_reads_bind (by simp) h
  rw [exec_clock_bind] at h
  obtain ⟨_, -, h⟩ := exec_ofExcept_bind h
  rw [exec_ask_bind] at h
  obtain ⟨hanswer, rfl⟩ := Prod.mk.inj h
  obtain rfl := Except.ok.inj hanswer
  have hs₂ := hs.trans (ht₁.trans ht₂)
  have hgenerated := apply_isRead (show Operation.generateId.IsRead from trivial) t₂
  refine ⟨⟨hcontext, hs₂.now_eq, ?_, ?_⟩, rfl, hs₂.trans hgenerated⟩
  · change c.request.connectionId.all _ = true
    rw [hconnection]
    rfl
  · intro claims hclaims
    cases hclaims
    exact ⟨t₂, hs₂, rfl⟩

theorem readOf_of_external (hcontext : c.ReadOf s) (hs : s.ReadTo t)
    (h : (prepareExternalToken c (c.request.connectionId.bind s.directory.findConnection) proof
      s.now).exec t = (.ok p, u)) : p.ReadOf s ∧ p.context = c ∧ s.ReadTo u := by
  unfold prepareExternalToken at h
  obtain ⟨account, haccount, h⟩ := exec_orThrow_bind h
  obtain ⟨⟨authorization, credential⟩, t₁, -, ht₁, h⟩ := exec_reads_bind (by simp) h
  obtain ⟨jkt, t₂, -, ht₂, h⟩ := exec_reads_bind (by simp) h
  obtain ⟨_, t₃, -, ht₃, h⟩ := exec_reads_bind (by simp [refreshConnectionToken]) h
  obtain ⟨_, t₄, -, ht₄, h⟩ := exec_reads_bind (by simp) h
  obtain ⟨response, t₅, -, ht₅, h⟩ := exec_reads_bind (by simp) h
  obtain ⟨accessToken, -, h⟩ := exec_ofExcept_bind h
  obtain ⟨expiresIn, -, h⟩ := exec_ofExcept_bind h
  obtain ⟨_, -, h⟩ := exec_ofExcept_bind h
  obtain ⟨hanswer, rfl⟩ := Prod.mk.inj h
  obtain rfl := Except.ok.inj hanswer
  have hu := hs.trans (ht₁.trans (ht₂.trans (ht₃.trans (ht₄.trans ht₅))))
  obtain ⟨hfound, hactive⟩ := Option.filter_eq_some_iff.mp haccount
  obtain ⟨id, hid, hconnection⟩ := Option.bind_eq_some_iff.mp hfound
  refine ⟨⟨hcontext, rfl, ?_, fun claims hclaims => by cases hclaims⟩, rfl, hu⟩
  change c.request.connectionId.all _ = true
  rw [hid]
  exact Directory.activeConnection_of_found hconnection (of_decide_eq_true hactive)

theorem readOf_of_prepare
    (h : (prepareTargetToken requestId proof principal).exec s = (.ok p, u)) :
    p.ReadOf s ∧ p.context.principal = principal ∧ s.ReadTo u := by
  unfold prepareTargetToken at h
  obtain ⟨⟨c, connection, now⟩, t, hcontext, h⟩ := exec_bind_inv h
  obtain ⟨hread, hprincipal, hs, rfl, rfl⟩ := readOf_of_exec hcontext
  dsimp only at h
  split at h
  · obtain ⟨hp, rfl, hu⟩ := readOf_of_external hread hs h
    exact ⟨hp, hprincipal, hu⟩
  · obtain ⟨_, -, h⟩ := exec_ofExcept_bind h
    obtain ⟨hp, rfl, hu⟩ := readOf_of_native hread hs h
    exact ⟨hp, hprincipal, hu⟩

theorem IssuanceContext.ReadOf.readTo (hc : c.ReadOf s) (h : s.ReadTo t) : c.ReadOf t := by
  obtain ⟨g, -, rfl⟩ := h
  exact ⟨hc.request, hc.decided, hc.agent, hc.entitlements, hc.resource⟩

/-- The hash of every entitlement in the context is that of the request's details in their order. -/
def IssuanceContext.Aligned (c : IssuanceContext) : Prop :=
  ∀ e ∈ c.entitlements, e.authorizationContextHash = contextHash c.request.authorizationDetails

/-- A selected entitlement meets every condition of the guard but the one on the hash. -/
theorem suppliedEntitlementHolds_iff (hvalid : s.Valid) (hc : c.ReadOf s) {e : ScopeEntitlement}
    (he : e ∈ c.entitlements) : s.suppliedEntitlementHolds c.boundary s.now e.id = true ↔
      e.authorizationContextHash = contextHash c.request.authorizationDetails := by
  have hread := he
  rw [hc.entitlements, mem_contextEntitlements, mem_listActiveEntitlementsByAgent] at hread
  obtain ⟨⟨hmem, hagent, hactive⟩, hresource, hconnection, -⟩ := hread
  have hfound : s.findEntitlement e.id = some e := lookup_of_mem hvalid.entitlements.1 hmem
  have hscope : c.boundary.scopes.contains e.scope = true := by
    rw [List.contains_iff_mem]
    exact Text.mem_sort.mpr (List.mem_map_of_mem he)
  have hagent' : Store.sqlNotEqual e.agentIdentityId c.boundary.agentIdentityId = false := by
    have hboundary : c.boundary.agentIdentityId = c.principal.identityId := hc.agent
    rw [hagent, hboundary]
    exact bne_self_eq_false _
  unfold Store.suppliedEntitlementHolds
  rw [hfound, Option.elim_some, hagent', hscope, hactive]
  have hresource' : e.resourceServerId = c.boundary.resourceServerId := hresource
  have hconnection' : e.connectionId = c.boundary.connectionId := hconnection
  rw [hresource', hconnection']
  simp only [Bool.not_false, beq_self_eq_true, Bool.true_and, Bool.and_true, beq_iff_eq]
  rfl

/-- Every scope of the boundary is that of a selected entitlement. -/
theorem suppliesScope_of_mem (hvalid : s.Valid) (hc : c.ReadOf s) {scope : String}
    (h : scope ∈ c.boundary.scopes) : s.suppliesScope c.entitlementIds scope = true := by
  obtain ⟨e, he, rfl⟩ := List.mem_map.mp (Text.mem_sort.mp h)
  have hread := he
  rw [hc.entitlements, mem_contextEntitlements, mem_listActiveEntitlementsByAgent] at hread
  have hfound : s.findEntitlement e.id = some e :=
    lookup_of_mem hvalid.entitlements.1 hread.1.1
  rw [Store.suppliesScope, List.any_eq_true]
  refine ⟨e.id, List.mem_map_of_mem he, ?_⟩
  rw [hfound]
  exact beq_self_eq_true e.scope

/-- The guard of the insert comes down to the hashes of the selected entitlements. -/
theorem leaseInsertable_iff (hvalid : s.Valid) (hc : c.ReadOf s)
    (haccount : c.request.connectionId.all s.directory.activeConnection = true) (id : Id)
    (token : AccessToken) (jkt : String) (expiresAt : ℕ) :
    (s.findAccessRequest (c.lease id token jkt expiresAt s.now).requestId).any
      (s.leaseInsertable (c.lease id token jkt expiresAt s.now) c.boundary) = true ↔
      c.Aligned := by
  have hstatus : (c.request.status == .approved || c.request.status == .consumed) = true := by
    rw [Bool.or_eq_true, beq_iff_eq, beq_iff_eq]
    exact hc.decided
  have hlength : c.entitlementIds.length = c.boundary.scopes.length := by
    simp [IssuanceContext.entitlementIds, IssuanceContext.boundary, IssuanceContext.scopes]
  have hscopes : c.scopes.all (s.suppliesScope c.entitlementIds) = true := by
    rw [List.all_eq_true]
    exact fun scope hscope => suppliesScope_of_mem hvalid hc hscope
  have hids : c.entitlementIds.all (s.suppliedEntitlementHolds c.boundary s.now) = true ↔
      c.Aligned := by
    rw [IssuanceContext.entitlementIds, List.all_map, List.all_eq_true]
    constructor
    · intro h e he
      exact (suppliedEntitlementHolds_iff hvalid hc he).mp (h e he)
    · intro h e he
      exact (suppliedEntitlementHolds_iff hvalid hc he).mpr (h e he)
  have hfound : s.findAccessRequest (c.lease id token jkt expiresAt s.now).requestId =
      some c.request := hc.request
  rw [hfound, Option.any_some, ← hids]
  simp only [Store.leaseInsertable, IssuanceContext.lease, hstatus, hlength, hscopes, haccount,
    hc.resource, IssuanceContext.boundary, beq_self_eq_true, Bool.true_and, Bool.and_true]

end Guards

section Stamps

variable [Locale] {pool : AccessPool}

/-- The identifiers of a stored lease and of its signed token were generated before. -/
theorem generated_of_mem (h : AccessReachable pool) {l : TokenLease}
    (hl : l ∈ pool.store.leases) : l.tokenHash = sha256 l.accessToken ∧
      (∃ s : Store, s.generated < pool.store.generated ∧ l.id = s.nextId) ∧
      ∀ claims, l.accessToken = .signed claims →
        ∃ s : Store, s.generated < pool.store.generated ∧ claims.jti = s.nextId := by
  obtain ⟨t, ht, e, he, l₀, ⟨⟨i, hop, rfl⟩, -⟩, hpersists⟩ := inserted_of_mem h hl
  obtain ⟨earlier, later, hlog, hjustified⟩ := (h.logged program_contract ht).of_mem he
  rw [hop] at hjustified
  obtain ⟨c, hissued⟩ := hjustified
  have hbefore {s : Store} (hs : ⟨.generateId, s⟩ ∈ earlier) :
      s.generated < pool.store.generated := by
    have hmem : (⟨.generateId, s⟩ : Event Store Operation) ∈ t.log := by
      rw [hlog]
      exact List.mem_append_right _ (.tail _ hs)
    have hevolves := (h.evolves generated_evolution t ht).2 _ hmem
    exact Nat.lt_of_succ_le hevolves
  rw [hpersists.columns]
  refine ⟨?_, ?_, ?_⟩
  · have hhash : i.lease.tokenHash = sha256 i.lease.accessToken :=
      congrArg TokenLease.tokenHash hissued.lease
    exact hhash
  · obtain ⟨s, earlier', hread, hid⟩ := hissued.generated
    exact ⟨s, hbefore (hread.subset List.mem_cons_self), hid⟩
  · intro claims hclaims
    obtain ⟨-, s, groups, hs, rfl⟩ := hissued.token claims hclaims
    exact ⟨s, hbefore hs, rfl⟩

end Stamps

section Storing

variable [Locale] {s t u : Store} {c : IssuanceContext}

omit [Locale] in
/-- The audit of an Agent whose identity is there can be written. -/
theorem exec_resourceAuditRecord (input : AuditInput) {principal : AgentResourcePrincipal}
    (hinput : input.principal = some principal)
    (hidentity : (s.directory.findIdentity principal.identityId).isSome = true) :
    ∃ audit t, (resourceAuditRecord input).exec s = (.ok audit, t) ∧ s.ReadTo t := by
  have htenant : ∃ owner, (resolveAuditTenant input).exec s = (.ok owner, s) := by
    unfold resolveAuditTenant
    cases input.connection with
    | some connection => exact ⟨connection.owner, rfl⟩
    | none =>
      obtain ⟨identity, hfound⟩ := Option.isSome_iff_exists.mp hidentity
      have hid : input.agentIdentityId = some principal.identityId := by
        rw [AuditInput.agentIdentityId, hinput]
        rfl
      refine ⟨.user identity.ownerUserId, ?_⟩
      rw [hid]
      simp only [orThrow_some, done_bind]
      rw [exec_look_bind, hfound]
      rfl
  obtain ⟨owner, htenant⟩ := htenant
  have hrun : ∃ audit t, (resourceAuditRecord input).exec s = (.ok audit, t) := by
    unfold resourceAuditRecord
    rw [exec_bind_ok _ htenant]
    exact ⟨_, _, rfl⟩
  obtain ⟨audit, t, hrun⟩ := hrun
  exact ⟨audit, t, hrun, readTo_of_exec (reads_resourceAuditRecord input) hrun⟩

def entitlementsChanged : Failure :=
  forbidden "Approved Entitlements changed before token issuance."

/-- Storing a lease comes down to its batch, in a store that has only been read since. -/
theorem exec_storeTokenLease (connection : Option ResourceConnection) (token : AccessToken)
    (jkt : String) (expiresAt now : ℕ)
    (hidentity : (s.directory.findIdentity c.principal.identityId).isSome = true) :
    ∃ v audit, s.ReadTo v ∧ s.generated < v.generated ∧
      (storeTokenLease c connection token jkt expiresAt now).exec s =
        (do
          let lease ← issueTokenLeaseWithAudit
            (c.issuance (c.lease s.nextId token jkt expiresAt now) audit)
          orThrow lease entitlementsChanged).exec v := by
  have hgenerated := apply_isRead (show Operation.generateId.IsRead from trivial) s
  have hidentity' : ((apply Operation.generateId s).directory.findIdentity
      c.principal.identityId).isSome = true := by
    rw [hgenerated.directory_eq]
    exact hidentity
  obtain ⟨audit, v, haudit, hv⟩ := exec_resourceAuditRecord (s := apply Operation.generateId s)
    ({
      action := "api_resource.token_issued"
      result := "allowed"
      principal := some c.principal
      request := some c.request
      resourceId := c.resource.id
      connection := connection
      accessRequestId := some c.request.id
      controllerUserId := none
      scopes := c.scopes
      authorizationDetails := c.request.authorizationDetails
      reasonCode := none } : AuditInput) rfl hidentity'
  have hlt : s.generated < v.generated := Nat.lt_of_lt_of_le (Nat.lt_succ_self _) hv.generated_le
  refine ⟨v, audit, hgenerated.trans hv, hlt, ?_⟩
  unfold storeTokenLease
  exact exec_bind_ok _ haudit

omit [Locale] in
/-- The result of storing a lease, which its batch decides. -/
theorem exec_batch (i : Issuance) (v : Store) (hfresh : v.findTokenLease i.lease.id = none) :
    let run := (do
      let lease ← issueTokenLeaseWithAudit i
      orThrow lease entitlementsChanged : Access TokenLease).exec v
    let guard := (v.findAccessRequest i.lease.requestId).any (v.leaseInsertable i.lease i.boundary)
    (guard = true → (∀ l ∈ v.leases, l.tokenHash ≠ i.lease.tokenHash) →
      run = (.ok i.lease, v.issued i)) ∧
    (guard = true → ¬(∀ l ∈ v.leases, l.tokenHash ≠ i.lease.tokenHash) →
      run = (.error uniqueViolation, v)) ∧
    (guard = false → run = (.error entitlementsChanged, v)) := by
  dsimp only
  have hids : ∀ l ∈ v.leases, l.id ≠ i.lease.id := by
    intro l hl hid
    have hnone := List.find?_eq_none.mp hfresh l hl
    exact hnone (decide_eq_true hid)
  have hrun : (issueTokenLeaseWithAudit i >>= fun lease =>
      (orThrow lease entitlementsChanged : Access TokenLease)).exec v =
      (Procedure.ofExcept ((Repository.issueTokenLeaseWithAudit i).outcome v) >>= fun lease =>
        (orThrow lease entitlementsChanged : Access TokenLease)).exec
        ((Repository.issueTokenLeaseWithAudit i).settle v) := rfl
  rw [hrun]
  refine ⟨fun hguard hnew => ?_, fun hguard hold => ?_, fun hguard => ?_⟩
  · have hbatch := issueTokenLeaseWithAudit_of_admits
      (⟨hguard, fun l hl => ⟨hids l hl, hnew l hl⟩⟩ : v.Admits i)
    rw [Batch.settle_of_ok hbatch, Batch.outcome, hbatch]
    rfl
  · have hclash : (v.leases.any fun l => l.id == i.lease.id || l.tokenHash == i.lease.tokenHash) =
        true := by
      push Not at hold
      obtain ⟨l, hl, hhash⟩ := hold
      rw [List.any_eq_true]
      exact ⟨l, hl, by simp [hhash]⟩
    have hbatch := issueTokenLeaseWithAudit_of_clash hguard hclash
    rw [Batch.settle_of_error hbatch, Batch.outcome, hbatch]
    rfl
  · have hbatch := issueTokenLeaseWithAudit_of_refused hguard hfresh
    rw [Batch.settle_of_ok hbatch, Batch.outcome, hbatch]
    rfl

end Storing

section Issuance

variable [Locale] {pool : AccessPool}

omit [Locale] in
theorem findIdentity_of_authenticated {s t : Store} {agent : Credentials}
    {principal : AgentResourcePrincipal}
    (h : (authenticateAgent agent).exec s = (.ok principal, t)) :
    t = s ∧ (s.directory.findIdentity principal.identityId).isSome = true := by
  unfold authenticateAgent at h
  rw [exec_look_bind] at h
  obtain ⟨⟨identity, binding⟩, hfound, h⟩ := exec_orThrow_bind h
  obtain ⟨hanswer, rfl⟩ := Prod.mk.inj h
  obtain rfl := Except.ok.inj hanswer
  obtain ⟨i, hi, hrest⟩ := Option.bind_eq_some_iff.mp hfound
  obtain ⟨b, -, hpair⟩ := Option.bind_eq_some_iff.mp hrest
  obtain ⟨rfl, rfl⟩ := Prod.mk.inj (Option.some.inj hpair)
  have hidentity := (Option.filter_eq_some_iff.mp hi).1
  have hid := List.find?_some hidentity
  rw [decide_eq_true_eq] at hid
  refine ⟨rfl, ?_⟩
  change (s.directory.findIdentity i.id).isSome = true
  rw [hid.1, hidentity]
  rfl

/-- A token that an external server gave is not one that is stored already. -/
def PreparedToken.Unrepeated (p : PreparedToken) (s : Store) : Prop :=
  ∀ value, p.token = .external value → ∀ l ∈ s.leases, l.accessToken ≠ .external value

/-- A prepared token is stored already only if an external server repeated it. -/
theorem new_iff_unrepeated (h : AccessReachable pool) {p : PreparedToken}
    (hp : p.ReadOf pool.store) :
    (∀ l ∈ pool.store.leases, l.tokenHash ≠ sha256 p.token) ↔ p.Unrepeated pool.store := by
  have hhash (l : TokenLease) (hl : l ∈ pool.store.leases) :
      l.tokenHash = sha256 p.token ↔ l.accessToken = p.token := by
    rw [(generated_of_mem h hl).1]
    exact ⟨fun heq => congrArg Digest.preimage heq, fun heq => congrArg sha256 heq⟩
  constructor
  · intro hnew value hvalue l hl htoken
    exact hnew l hl ((hhash l hl).mpr (htoken.trans hvalue.symm))
  · intro hunrepeated l hl heq
    have htoken := (hhash l hl).mp heq
    cases hkind : p.token with
    | external value => exact hunrepeated value hkind l hl (htoken.trans hkind)
    | signed claims =>
      obtain ⟨s, hs, hjti⟩ := hp.token claims hkind
      obtain ⟨s', hs', hjti'⟩ := (generated_of_mem h hl).2.2 claims (htoken.trans hkind)
      have hstamp := nextId_inj (hjti.symm.trans hjti')
      have hle := hs.generated_le
      omega

/-- An issuance that gets to its batch with nothing in between is decided by the hashes of the
entitlements that it selected: the guard of the insert holds exactly when each of them is the hash
of the request's details in their order. -/
theorem issuance_decided_by_hashes (h : AccessReachable pool) {agent : Credentials}
    {requestId : Id} {proof : TokenProof} {principal : AgentResourcePrincipal}
    {p : PreparedToken} {t u : Store}
    (hagent : (authenticateAgent agent).exec pool.store = (.ok principal, t))
    (hprepare : (prepareTargetToken requestId proof principal).exec t = (.ok p, u)) :
    p.context.ReadOf pool.store ∧ ∃ v i, pool.store.ReadTo v ∧
      i.lease.requestId = p.context.request.id ∧
      i.lease.entitlementIds = p.context.entitlementIds ∧ i.boundary = p.context.boundary ∧
      ((v.findAccessRequest i.lease.requestId).any (v.leaseInsertable i.lease i.boundary) = true ↔
        p.context.Aligned) ∧
      (p.context.Aligned → p.Unrepeated pool.store →
        (Call.issueTargetAccessToken requestId proof agent).program.exec pool.store =
          (.ok (.token ⟨i.lease, p.expiresIn, p.context.resource.resourceUrl⟩), v.issued i)) ∧
      (p.context.Aligned → ¬p.Unrepeated pool.store →
        (Call.issueTargetAccessToken requestId proof agent).program.exec pool.store =
          (.error uniqueViolation, v)) ∧
      (¬p.context.Aligned →
        (Call.issueTargetAccessToken requestId proof agent).program.exec pool.store =
          (.error entitlementsChanged, v)) := by
  obtain ⟨rfl, hidentity⟩ := findIdentity_of_authenticated hagent
  obtain ⟨hp, hprincipal, hu⟩ := readOf_of_prepare hprepare
  have hidentity' : (u.directory.findIdentity p.context.principal.identityId).isSome = true := by
    rw [hprincipal, hu.directory_eq]
    exact hidentity
  obtain ⟨v, audit, hv, -, hstore⟩ := exec_storeTokenLease p.connection p.token
    p.confirmationJkt p.expiresAt p.now hidentity'
  have hsv := hu.trans hv
  let lease := p.context.lease u.nextId p.token p.confirmationJkt p.expiresAt p.now
  let i := p.context.issuance lease audit
  have hfresh : v.findTokenLease lease.id = none := by
    rw [Store.findTokenLease, lookup, List.find?_eq_none, hsv.leases_eq]
    intro l hl hkey
    obtain ⟨-, ⟨s, hs, hid⟩, -⟩ := generated_of_mem h hl
    have hstamp := nextId_inj (hid.symm.trans (of_decide_eq_true hkey))
    have hle := hu.generated_le
    omega
  have hnow : p.now = v.now := hp.now.trans hsv.now_eq.symm
  have haccount : p.context.request.connectionId.all v.directory.activeConnection = true := by
    rw [hsv.directory_eq]
    exact hp.account
  have hguard : (v.findAccessRequest lease.requestId).any
      (v.leaseInsertable lease p.context.boundary) = true ↔ p.context.Aligned := by
    change (v.findAccessRequest (p.context.lease _ _ _ _ p.now).requestId).any
      (v.leaseInsertable (p.context.lease _ _ _ _ p.now) _) = true ↔ _
    rw [hnow]
    exact leaseInsertable_iff (h.valid.readTo hsv) (hp.context.readTo hsv) haccount _ _ _ _
  have hnew := new_iff_unrepeated h hp
  rw [← hsv.leases_eq] at hnew
  obtain ⟨hissued, hclash, hrefused⟩ := exec_batch i v hfresh
  have hcall {r : Except Failure TokenLease} {w : Store}
      (hrun : (issueTokenLeaseWithAudit i >>= fun lease =>
        (orThrow lease entitlementsChanged : Access TokenLease)).exec v = (r, w)) :
      (Call.issueTargetAccessToken requestId proof agent).program.exec pool.store =
        (r.map fun lease => .token ⟨lease, p.expiresIn, p.context.resource.resourceUrl⟩, w) := by
    have hall := hstore.trans hrun
    unfold Call.program
    rw [exec_bind_ok _ hagent, issueTargetAccessToken_eq, bind_assoc, exec_bind_ok _ hprepare]
    unfold PreparedToken.store
    rw [bind_assoc]
    cases r with
    | ok lease => rw [exec_bind_ok _ hall]; rfl
    | error e => rw [exec_bind_error _ hall]; rfl
  refine ⟨hp.context, v, i, hsv, rfl, rfl, rfl, hguard, ?_, ?_, ?_⟩
  · intro haligned hunrepeated
    exact hcall (hissued (hguard.mpr haligned) (hnew.mpr hunrepeated))
  · intro haligned hrepeated
    exact hcall (hclash (hguard.mpr haligned) fun hall => hrepeated (hnew.mp hall))
  · intro hmisaligned
    exact hcall (hrefused (Bool.eq_false_iff.mpr fun hall => hmisaligned (hguard.mp hall)))

end Issuance

namespace Sample

def readableItems : List CatalogItem :=
  [⟨mailbox "inbox", some ["list"]⟩, ⟨mailbox "archive", some ["list"]⟩]

/-- The mail account with a server that exchanges tokens for both mailboxes. -/
def exchangingStore : Store :=
  { mailStore with
    world := { mailStore.world with
      catalogPage := fun _ _ => .ok ⟨readableItems, 1, 100, 2, 1⟩
      tokenExchange := fun _ _ _ => .ok ⟨some "token", "DPoP", some 300, none,
        .value [mailbox "inbox", mailbox "archive"], none⟩ } }

/-- A request for two mailboxes is approved; then the same is requested in the other order, and
counts as authorized already. -/
def reorderedMoves : List (Move Call) :=
  Move.alone 0 (.createAgentAccessRequest agent
    ⟨"mail", ["list"], some [mailbox "inbox", mailbox "archive"], none⟩) 20 ++
    Move.alone 1 (.decideAgentAccessRequest "id-1"
      (.approve ⟨.persistent, some [mailbox "inbox", mailbox "archive"]⟩) "u") 22 ++
    Move.alone 2 (.createAgentAccessRequest agent
      ⟨"mail", ["list"], some [mailbox "archive", mailbox "inbox"], none⟩) 19

def reordered : Option AccessPool :=
  (Pool.initial exchangingStore).run Call.program (fun _ _ => true) reorderedMoves

theorem reachable_of_reordered {check : AccessPool → Bool} (h : reordered.any check = true) :
    ∃ pool : AccessPool, AccessReachable pool ∧ check pool = true := by
  obtain ⟨pool, hrun, hcheck⟩ := (Option.any_eq_true _ _).mp h
  have hfresh : exchangingStore.Fresh := ⟨rfl, rfl, rfl, rfl⟩
  exact ⟨pool, Reachable.of_run (fun _ _ _ => trivial) (.initial hfresh) hrun, hcheck⟩

/-- The checks of an issuance before its batch. -/
def prepares (pool : AccessPool) (requestId : Id) : Bool :=
  ((authenticateAgent agent >>= prepareTargetToken requestId proof).exec pool.store).1.isOk

theorem exec_of_prepares {pool : AccessPool} {requestId : Id}
    (h : prepares pool requestId = true) : ∃ p u,
      (authenticateAgent agent >>= prepareTargetToken requestId proof).exec pool.store =
        (.ok p, u) := by
  unfold prepares at h
  rcases hexec : (authenticateAgent agent >>= prepareTargetToken requestId proof).exec pool.store
    with ⟨e | p, u⟩
  · rw [hexec] at h
    cases h
  · exact ⟨p, u, rfl⟩

def message : Except Failure Reply → Option String
  | .error (.api _ _ message _) => some message
  | _ => none

end Sample

set_option maxRecDepth 10000 in
/-- The request that was approved itself gets to its batch. -/
theorem issuance_decided_by_hashes_approved : ∃ pool : AccessPool, AccessReachable pool ∧
    ∃ p : PreparedToken, p.context.ReadOf pool.store ∧
      ∃ (v : Store) (i : Issuance), pool.store.ReadTo v ∧
      ((v.findAccessRequest i.lease.requestId).any (v.leaseInsertable i.lease i.boundary) = true ↔
        p.context.Aligned) := by
  have hrun : Sample.reordered.any (fun pool => Sample.prepares pool "id-1") = true := by
    decide +kernel
  obtain ⟨pool, hpool, hcheck⟩ := Sample.reachable_of_reordered hrun
  obtain ⟨p, u, hp⟩ := Sample.exec_of_prepares hcheck
  obtain ⟨principal, t, hagent, hprepare⟩ := exec_bind_inv hp
  obtain ⟨hread, v, i, hv, -, -, -, hguard, -⟩ := issuance_decided_by_hashes hpool hagent hprepare
  exact ⟨pool, hpool, p, hread, v, i, hv, hguard⟩

set_option maxRecDepth 10000 in
/-- The second request passes every check before the batch, nothing else runs, and the insert
refuses it; the first one, with the details in the other order, is served from the same store. -/
theorem reordered_details_refused : ∃ pool : AccessPool, AccessReachable pool ∧
    (pool.store.findAccessRequest "id-6").any (·.status = .approved) = true ∧
    Sample.prepares pool "id-6" = true ∧
    Sample.message ((Call.issueTargetAccessToken "id-6" Sample.proof Sample.agent).program.exec
      pool.store).1 = some "Approved Entitlements changed before token issuance." ∧
    ((Call.issueTargetAccessToken "id-1" Sample.proof Sample.agent).program.exec
      pool.store).1.isOk = true := by
  have hrun : Sample.reordered.any (fun pool =>
      (pool.store.findAccessRequest "id-6").any (·.status = .approved) &&
      Sample.prepares pool "id-6" &&
      Sample.message ((Call.issueTargetAccessToken "id-6" Sample.proof Sample.agent).program.exec
        pool.store).1 == some "Approved Entitlements changed before token issuance." &&
      ((Call.issueTargetAccessToken "id-1" Sample.proof Sample.agent).program.exec
        pool.store).1.isOk) = true := by
    decide +kernel
  obtain ⟨pool, hpool, hcheck⟩ := Sample.reachable_of_reordered hrun
  simp only [Bool.and_eq_true, beq_iff_eq] at hcheck
  obtain ⟨⟨⟨hstatus, hprepares⟩, hrefused⟩, hserved⟩ := hcheck
  exact ⟨pool, hpool, hstatus, hprepares, hrefused, hserved⟩

end FlareAuth
