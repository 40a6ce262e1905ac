import FlareAuth.AgentAuthority

/-!
# The holder of a token

A token that was issued to an Agent authenticates this Agent and no other: the identity, the binding
and the runtime session of the call that asked for it. It does so exactly as long as its lease, the
identity and the binding are active, given a proof of its key.
-/

namespace FlareAuth

open Concurrent Procedure Access Relational

section Contract

variable [Locale]

/-- What the lease of a token and the token itself say of the Agent that it is issued to. -/
structure Issuance.For (i : Issuance) (principal : AgentResourcePrincipal) : Prop where
  bindingId : i.lease.bindingId = principal.binding.id
  claims : ∀ claims, i.lease.accessToken = .signed claims →
    claims.clientId = realmrootCliClientId ∧ claims.iss = principal.issuer ∧
      claims.sub = principal.identity.ownerUserId ∧
      claims.act = ⟨principal.issuer, principal.subject⟩ ∧
      claims.binding = ⟨principal.protocolAgentId, principal.hostId, principal.runtime,
        principal.sessionId⟩

def Operation.IssuesTo (principal : AgentResourcePrincipal) : Operation → Prop
  | .issueTokenLease i => i.For principal
  | _ => True

variable {principal : AgentResourcePrincipal}

omit [Locale] in
theorem issuesTo_reads {α : Type} {p : Access α} (h : p.Reads) :
    p.Only (Operation.IssuesTo principal) := by
  refine h.mono fun op hop => ?_
  cases op <;> first | exact trivial | exact hop.elim

theorem issuesTo_storeTokenLease {c : IssuanceContext} (hprincipal : c.principal = principal)
    {token : AccessToken} {jkt : String} {expiresAt now : ℕ}
    (htoken : ∀ claims, token = .signed claims → ∃ jti groups,
      claims = c.claims jti groups jkt expiresAt now) (connection : Option ResourceConnection) :
    (storeTokenLease c connection token jkt expiresAt now).Only (Operation.IssuesTo principal) := by
  subst hprincipal
  refine only_bind.mpr ⟨issuesTo_reads (by simp), fun leaseId _ => ?_⟩
  refine only_bind.mpr ⟨issuesTo_reads (reads_resourceAuditRecord _), fun audit _ => ?_⟩
  refine only_bind.mpr ⟨⟨⟨rfl, fun claims hclaims => ?_⟩, fun _ => only_ofExcept _⟩,
    fun lease _ => ?_⟩
  · obtain ⟨jti, groups, rfl⟩ := htoken claims hclaims
    exact ⟨rfl, rfl, rfl, rfl, rfl⟩
  · exact only_orThrow _ _

theorem issuesTo_issueNativeAccessToken {c : IssuanceContext} (hprincipal : c.principal = principal)
    (proof : TokenProof) :
    (issueNativeAccessToken c proof).Only (Operation.IssuesTo principal) := by
  refine only_bind.mpr ⟨only_require _ _, fun _ _ =>
    only_bind.mpr ⟨only_require _ _, fun _ _ => ?_⟩⟩
  refine only_bind.mpr ⟨issuesTo_reads (by simp), fun _ _ => ?_⟩
  refine only_bind.mpr ⟨issuesTo_reads (by simp), fun jkt _ => ?_⟩
  refine only_bind.mpr ⟨issuesTo_reads (by simp), fun now _ => ?_⟩
  refine only_bind.mpr ⟨only_ofExcept _, fun _ _ => ?_⟩
  refine only_bind.mpr ⟨issuesTo_reads (by simp), fun groups _ => ?_⟩
  refine only_bind.mpr ⟨issuesTo_reads (by simp), fun jti _ => ?_⟩
  refine only_bind.mpr ⟨issuesTo_storeTokenLease hprincipal ?_ _, fun _ _ => only_done _⟩
  rintro claims ⟨⟩
  exact ⟨jti, groups, rfl⟩

theorem issuesTo_issueExternalAccessToken {c : IssuanceContext}
    (hprincipal : c.principal = principal) (connection : Option ResourceConnection)
    (proof : TokenProof) (now : ℕ) :
    (issueExternalAccessToken c connection proof now).Only (Operation.IssuesTo principal) := by
  refine only_bind.mpr ⟨only_orThrow _ _, fun connection _ => ?_⟩
  refine only_bind.mpr ⟨issuesTo_reads (by simp), fun ⟨authorization, credential⟩ _ => ?_⟩
  refine only_bind.mpr ⟨issuesTo_reads (by simp), fun jkt _ => ?_⟩
  refine only_bind.mpr ⟨issuesTo_reads (by simp [refreshConnectionToken]), fun _ _ => ?_⟩
  refine only_bind.mpr ⟨issuesTo_reads (by simp), fun _ _ => ?_⟩
  refine only_bind.mpr ⟨issuesTo_reads (by simp), fun response _ => ?_⟩
  refine only_bind.mpr ⟨only_ofExcept _, fun accessToken _ => ?_⟩
  refine only_bind.mpr ⟨only_ofExcept _, fun expiresIn _ => ?_⟩
  refine only_bind.mpr ⟨only_ofExcept _, fun _ _ => ?_⟩
  refine only_bind.mpr ⟨issuesTo_storeTokenLease hprincipal ?_ _, fun _ _ => only_done _⟩
  rintro claims ⟨⟩

theorem issuesTo_issueTargetAccessToken (requestId : Id) (proof : TokenProof) :
    (issueTargetAccessToken requestId proof principal).Only (Operation.IssuesTo principal) := by
  unfold issueTargetAccessToken
  refine only_bind.mpr ⟨issuesTo_reads (by simp [findApprovedAccessRequest]), fun request _ => ?_⟩
  refine only_bind.mpr ⟨issuesTo_reads (by simp), fun now _ => ?_⟩
  refine only_bind.mpr ⟨issuesTo_reads (by simp), fun active _ => ?_⟩
  refine only_bind.mpr ⟨only_require _ _, fun _ _ => ?_⟩
  refine only_bind.mpr ⟨issuesTo_reads (by simp [requireIssuableResource]), fun resource _ => ?_⟩
  let context : IssuanceContext :=
    ⟨principal, request, contextEntitlements request active, resource⟩
  have hprincipal : context.principal = principal := rfl
  refine only_bind.mpr ⟨issuesTo_reads (by simp), fun connection _ =>
    only_ite.mpr ⟨fun _ => ?_, ?_⟩⟩
  · exact issuesTo_issueExternalAccessToken hprincipal _ _ _
  · refine fun _ => only_bind.mpr ⟨only_ofExcept _, fun _ _ => ?_⟩
    exact issuesTo_issueNativeAccessToken hprincipal _

/-- The issuance is for the Agent that the call has authenticated. -/
def IssuedFor (call : Call) (log : AccessLog) (_ : Store) (op : Operation) : Prop :=
  match call with
  | .issueTargetAccessToken _ _ credentials => ∀ i, op = .issueTokenLease i →
      ∃ principal, i.For principal ∧ principal.runtime = credentials.runtime ∧
        principal.sessionId = credentials.sessionId ∧
        ∃ d ∈ log, d.before.directory.findActiveAgent credentials =
          some (principal.identity, principal.binding)
  | _ => True

omit [Locale] in
theorem obeys_authenticateAgent (call : Call) (credentials : Credentials) :
    (authenticateAgent credentials).Obeys (IssuedFor call) (fun log r => ∀ principal,
      r = .ok principal → principal.runtime = credentials.runtime ∧
        principal.sessionId = credentials.sessionId ∧ ∃ d ∈ log,
          d.before.directory.findActiveAgent credentials =
            some (principal.identity, principal.binding)) [] := by
  intro s
  constructor
  · cases call <;> first | exact trivial | exact fun i hi => nomatch hi
  change Obeys _ _ (orThrow (s.directory.findActiveAgent credentials) _ >>= _) _
  refine obeys_orThrow_bind (fun active hactive principal hprincipal => ?_) fun _ _ h => nomatch h
  obtain rfl := Except.ok.inj hprincipal
  exact ⟨rfl, rfl, _, List.mem_cons_self, hactive⟩

theorem program_issuedFor (call : Call) :
    call.program.Obeys (IssuedFor call) (fun _ _ => True) [] := by
  by_cases hissues : ∃ requestId proof credentials,
      call = .issueTargetAccessToken requestId proof credentials
  · obtain ⟨requestId, proof, credentials, rfl⟩ := hissues
    refine (obeys_authenticateAgent _ credentials).bind (fun log principal _ hread => ?_)
      fun _ _ _ => trivial
    obtain ⟨hruntime, hsession, d, hd, hfound⟩ := hread principal rfl
    refine Only.obeys_after (only_bind.mpr ⟨issuesTo_issueTargetAccessToken requestId proof,
      fun _ _ => only_done _⟩) fun log' t op hlog hop i hi => ?_
    rw [hi] at hop
    exact ⟨principal, hop, hruntime, hsession, d, hlog.subset hd, hfound⟩
  · refine Only.obeys_after (only_true _) fun log s op _ _ => ?_
    unfold IssuedFor
    split
    · rename_i requestId proof credentials
      exact absurd ⟨_, _, _, rfl⟩ hissues
    · exact trivial

end Contract

section Holder

variable [Locale] {pool : AccessPool} {t : Thread Call Store Operation Failure Reply}
  {credentials : Credentials} {l₀ l : TokenLease} {claims : AgentTokenClaims}

/-- The Agent that a token was issued to, as it was when it asked for the token. -/
structure IssuedTo (pool : AccessPool) (credentials : Credentials) (l : TokenLease)
    (claims : AgentTokenClaims) (principal : AgentResourcePrincipal) : Prop where
  read : ∃ s ∈ pool.history, principal.identity ∈ s.directory.identities ∧
    principal.binding ∈ s.directory.bindings
  identityId : principal.identity.id = credentials.identityId
  bindingId : principal.binding.id = credentials.bindingId
  owned : principal.binding.agentIdentityId = credentials.identityId
  runtime : principal.runtime = credentials.runtime
  sessionId : principal.sessionId = credentials.sessionId
  lease : l.bindingId = credentials.bindingId
  clientId : claims.clientId = realmrootCliClientId
  iss : claims.iss = principal.issuer
  sub : claims.sub = principal.identity.ownerUserId
  act : claims.act = ⟨principal.issuer, principal.subject⟩
  binding : claims.binding = ⟨principal.protocolAgentId, principal.hostId, principal.runtime,
    principal.sessionId⟩

omit [Locale] in
theorem Directory.findActiveAgent_id {d : Directory} {identity : AgentIdentity}
    {binding : AgentBinding} (h : d.findActiveAgent credentials = some (identity, binding)) :
    identity.id = credentials.identityId ∧ binding.id = credentials.bindingId := by
  simp only [Directory.findActiveAgent, bind, Option.bind_eq_some_iff] at h
  obtain ⟨i, hi, b, hb, h⟩ := h
  obtain ⟨rfl, rfl⟩ : i = identity ∧ b = binding := by simpa using h
  have hidentity := List.find?_some (Option.filter_eq_some_iff.mp hi).1
  have hbinding := List.find?_some hb
  simp only [decide_eq_true_eq] at hidentity hbinding
  exact ⟨hidentity.1, hbinding.1⟩

theorem issuedTo_of_inserts (h : AccessReachable pool) (ht : t ∈ pool.threads) {requestId : Id}
    {proof : TokenProof} (hcall : t.call = .issueTargetAccessToken requestId proof credentials)
    {e : Event Store Operation} (he : e ∈ t.log) (hinserts : Inserts e l₀)
    (htoken : l₀.accessToken = .signed claims) :
    ∃ principal, IssuedTo pool credentials l₀ claims principal := by
  obtain ⟨⟨i, hop, rfl⟩, _⟩ := hinserts
  obtain ⟨earlier, later, hlog, hissued⟩ := (h.logged program_issuedFor ht).of_mem he
  rw [hcall] at hissued
  obtain ⟨principal, hfor, hruntime, hsession, d, hd, hfound⟩ := hissued i hop
  obtain ⟨hidentity, hbinding⟩ := Directory.findActiveAgent_id hfound
  obtain ⟨hread, hread', howned⟩ := Directory.findActiveAgent_mem hfound
  obtain ⟨hclient, hiss, hsub, hact, hclaims⟩ := hfor.claims claims htoken
  have hmem : d ∈ t.log := by
    rw [hlog]
    exact List.mem_append_right _ (List.mem_cons_of_mem _ hd)
  exact ⟨principal, ⟨d.before, List.mem_cons_of_mem _ (h.before_mem_past t ht d hmem), hread,
    hread'⟩, hidentity, hbinding, howned.trans hidentity, hruntime, hsession,
    hfor.bindingId.trans hbinding, hclient, hiss, hsub, hact, hclaims⟩

/-- A lease that is still there is a later version of the one that was inserted. -/
theorem current_of_inserts (h : AccessReachable pool) (ht : t ∈ pool.threads)
    {e : Event Store Operation} (he : e ∈ t.log) (hinserts : Inserts e l₀)
    (hl : l ∈ pool.store.leases) (hid : l.id = l₀.id) : l₀.Persists l := by
  have hevolves := ((h.evolves persists_evolution t ht).2 e he).leases
  have hmem : l₀ ∈ (apply e.operation e.before).leases := by
    rw [hinserts.2]
    exact List.mem_append_right _ List.mem_cons_self
  exact hevolves.of_mem_of_key_eq (fun _ _ hp => hp.id) h.valid.leases hmem hl hid

omit [Locale] in
theorem IssuedTo.current {principal : AgentResourcePrincipal}
    (h : IssuedTo pool credentials l₀ claims principal) (hpersists : l₀.Persists l) :
    IssuedTo pool credentials l claims principal where
  read := h.read
  identityId := h.identityId
  bindingId := h.bindingId
  owned := h.owned
  runtime := h.runtime
  sessionId := h.sessionId
  lease := by
    rw [hpersists.columns]
    exact h.lease
  clientId := h.clientId
  iss := h.iss
  sub := h.sub
  act := h.act
  binding := h.binding

theorem tokenHash_of_inserts (h : AccessReachable pool) (ht : t ∈ pool.threads)
    {e : Event Store Operation} (he : e ∈ t.log) (hinserts : Inserts e l₀)
    (htoken : l₀.accessToken = .signed claims) (hpersists : l₀.Persists l) :
    l.tokenHash = sha256 (.signed claims) := by
  obtain ⟨_, i, c, _, _, hissued, rfl, _⟩ := issued_of_inserts h ht he hinserts
  have hhash : i.lease.tokenHash = sha256 i.lease.accessToken := by
    rw [hissued.lease]
    rfl
  rw [hpersists.tokenHash, hhash, htoken]

/-- The primary keys of identities and bindings, and the unique index on subjects. -/
structure Directory.UniqueKeys (d : Directory) : Prop where
  identities : (d.identities.map (·.id)).Nodup
  subjects : (d.identities.map fun i => (i.issuer, i.subject)).Nodup
  bindings : (d.bindings.map (·.id)).Nodup

instance (d : Directory) : Decidable d.UniqueKeys :=
  decidable_of_iff ((d.identities.map (·.id)).Nodup ∧
    (d.identities.map fun i => (i.issuer, i.subject)).Nodup ∧ (d.bindings.map (·.id)).Nodup)
    ⟨fun ⟨h, h', h''⟩ => ⟨h, h', h''⟩, fun h => ⟨h.1, h.2, h.3⟩⟩

structure Usable (s : Store) (credentials : Credentials) (l : TokenLease)
    (claims : AgentTokenClaims) : Prop where
  lease : l.active s.now = true
  identity : ∃ i, s.directory.findIdentity credentials.identityId = some i ∧ i.status = .active
  binding : ∃ b ∈ s.directory.bindings, b.id = credentials.bindingId ∧ b.live = true
  session : claims.binding.WellFormed

/-- Claims as they are signed: none of the names is empty, and the binding can be written. -/
structure AgentTokenClaims.Written (claims : AgentTokenClaims) : Prop where
  sub : claims.sub ≠ ""
  confirmationJkt : claims.confirmationJkt ≠ ""
  actorIssuer : claims.act.iss ≠ ""
  actorSubject : claims.act.sub ≠ ""
  binding : claims.binding.encode = .ok claims.binding.value

omit [Locale] in
theorem find?_eq_of_key {α β : Type} [DecidableEq β] {key : α → β} {rows : List α} {p : α → Bool}
    {r : α} (hkeys : (rows.map key).Nodup) (hr : r ∈ rows) (hp : p r = true)
    (hkey : ∀ q ∈ rows, p q = true → key q = key r) : rows.find? p = some r := by
  cases hfound : rows.find? p with
  | none => exact absurd hp (List.find?_eq_none.mp hfound r hr)
  | some q =>
    have hq := List.mem_of_find?_eq_some hfound
    rw [eq_of_key_eq hkeys hq hr (hkey q hq (List.find?_some hfound))]

/-- The identity that a usable token names is found by its subject. -/
theorem identity_of_usable (h : AccessReachable pool) (hkeys : pool.store.directory.UniqueKeys)
    {principal : AgentResourcePrincipal} (hissued : IssuedTo pool credentials l claims principal)
    {i : AgentIdentity} (hi : pool.store.directory.findIdentity credentials.identityId = some i) :
    i.id = credentials.identityId ∧ i.ownerUserId = claims.sub ∧
      pool.store.directory.findByIssuerSubject claims.act.iss claims.act.sub = some i := by
  obtain ⟨s, hs, hread, _⟩ := hissued.read
  have hmem := List.mem_of_find?_eq_some hi
  have hfound := List.find?_some hi
  simp only [decide_eq_true_eq] at hfound
  have hevolves := (h.evolves_history persists_evolution s hs).directory.identities
  have hpersists := hevolves.of_mem_of_key_eq (fun _ _ hp => hp.id) hkeys.identities hread hmem
    (hfound.1.trans hissued.identityId.symm)
  refine ⟨hfound.1, hpersists.ownerUserId.trans hissued.sub.symm, ?_⟩
  refine find?_eq_of_key hkeys.subjects hmem ?_ fun j _ hj => ?_
  · rw [decide_eq_true_eq, hissued.act]
    exact ⟨hpersists.issuer, hpersists.subject, hfound.2⟩
  · rw [decide_eq_true_eq, hissued.act] at hj
    rw [Prod.mk.injEq]
    exact ⟨hj.1.trans hpersists.issuer.symm, hj.2.1.trans hpersists.subject.symm⟩

/-- A live binding with the identifier of the token's is one of the identity of the token. -/
theorem binding_of_usable (h : AccessReachable pool) (hkeys : pool.store.directory.UniqueKeys)
    {principal : AgentResourcePrincipal} (hissued : IssuedTo pool credentials l claims principal)
    {b : AgentBinding} (hb : b ∈ pool.store.directory.bindings) (hid : b.id = credentials.bindingId)
    (hlive : b.live = true) : (pool.store.directory.bindingsOf credentials.identityId).find?
      (fun b => b.id = l.bindingId ∧ b.live = true) = some b := by
  obtain ⟨s, hs, _, hread⟩ := hissued.read
  have howned : b.agentIdentityId = credentials.identityId := by
    rw [← hissued.owned]
    exact agentIdentityId_eq h hkeys.bindings List.mem_cons_self hs hb hread
      (hid.trans hissued.bindingId.symm)
  have hkeys' : ((pool.store.directory.bindingsOf credentials.identityId).map (·.id)).Nodup :=
    hkeys.bindings.sublist (List.filter_sublist.map _)
  refine find?_eq_of_key hkeys' ?_ ?_ fun q _ hq => ?_
  · rw [Directory.bindingsOf, List.mem_filter, decide_eq_true_eq]
    exact ⟨hb, howned⟩
  · rw [decide_eq_true_eq, hissued.lease]
    exact ⟨hid, hlive⟩
  · rw [decide_eq_true_eq, hissued.lease] at hq
    exact hq.1.trans hid.symm

/-- An active lease is found under the hash of its token. -/
theorem lease_of_usable (h : AccessReachable pool) (hl : l ∈ pool.store.leases)
    (hhash : l.tokenHash = sha256 (.signed claims)) (hactive : l.active pool.store.now = true) :
    pool.store.findActiveTokenLeaseByTokenHash (sha256 (.signed claims)) pool.store.now =
      some l := by
  refine find?_eq_of_key h.valid.tokens hl ?_ fun q _ hq => ?_
  · rw [decide_eq_true_eq]
    exact ⟨hhash, hactive⟩
  · rw [decide_eq_true_eq] at hq
    exact hq.1.trans hhash.symm

omit [Locale] in
theorem exec_resolveResourceTokenAgent {s : Store} {claims : AgentTokenClaims} {issuer : String}
    {i : AgentIdentity} {b : AgentBinding} {l : TokenLease} (hissuer : claims.act.iss = issuer)
    (hidentity : s.directory.findByIssuerSubject claims.act.iss claims.act.sub = some i)
    (howner : i.ownerUserId = claims.sub)
    (hlease : s.findActiveTokenLeaseByTokenHash (sha256 (.signed claims)) s.now = some l)
    (hcurrent : s.directory.findIdentity i.id = some i) (hstatus : i.status = .active)
    (hbinding : (s.directory.bindingsOf i.id).find?
      (fun b => b.id = l.bindingId ∧ b.live = true) = some b) :
    (resolveResourceTokenAgent (.leased (.signed claims)) issuer claims.sub claims.act.iss
      claims.act.sub).exec s = (.ok (i, b), s) := by
  unfold resolveResourceTokenAgent
  rw [require_pos hissuer, done_bind]
  dsimp only
  refine (exec_bind_ok _ (a := some i) (t := s) ?_).trans ?_
  · rw [← hidentity]
    rfl
  refine (exec_bind_ok _ (a := s.now) (t := s) rfl).trans ?_
  refine (exec_bind_ok _ (a := some l) (t := s) ?_).trans ?_
  · rw [← hlease]
    rfl
  refine (exec_bind_ok _ (a := i) (t := s) rfl).trans ?_
  refine (exec_bind_ok _ (a := l) (t := s) rfl).trans ?_
  rw [require_pos howner, done_bind]
  refine (exec_bind_ok _ (a := some (i, s.directory.bindingsOf i.id)) (t := s) ?_).trans ?_
  · change ((Except.ok ((s.directory.findIdentity i.id).map fun i =>
      (i, s.directory.bindingsOf i.id)) : Except Failure _), s) = _
    rw [hcurrent]
    rfl
  rw [Option.bind_some]
  dsimp only
  rw [if_pos hstatus, hbinding]
  rfl

/-- A request that presents a token which the verifier knows, and some proof. -/
structure Presents (request : AgentTokenRequest) (claims : AgentTokenClaims)
    (verifier : TokenVerifier) (options : OAuthOptions) : Prop where
  token : request.token = some (.leased (.signed claims))
  proof : ∃ text, request.proof = some text ∧ text ≠ ""
  verified : verifier (.leased (.signed claims)) options.issuer options.audience =
    some claims.payload
  issuer : options.issuer = claims.iss

variable {verifier : TokenVerifier} {options : OAuthOptions} {request : AgentTokenRequest}

omit [Locale] in
/-- A presented token is read by its payload. -/
theorem authenticateOAuthAgent_presents (h : Presents request claims verifier options)
    (hclient : claims.clientId = realmrootCliClientId) :
    authenticateOAuthAgent verifier options request =
      some <$> authenticateAgentPayload (.leased (.signed claims)) claims.payload options request
        realmrootCliClientId := by
  have hfield : nonempty (claims.payload.stringField "client_id") = some realmrootCliClientId := by
    rw [Json.stringField, AgentTokenClaims.field_clientId, hclient]
    rfl
  unfold authenticateOAuthAgent
  rw [h.token]
  dsimp only
  rw [h.verified]
  dsimp only
  rw [hfield]
  dsimp only
  rw [if_pos (.inl rfl)]

omit [Locale] in
theorem nonempty_some {text : String} (h : text ≠ "") : nonempty (some text) = some text := by
  simp [nonempty, h]

omit [Locale] in
theorem objectStringClaim_jkt (claims : AgentTokenClaims) :
    objectStringClaim claims.payload "cnf" "jkt" = some claims.confirmationJkt := by
  rw [objectStringClaim, AgentTokenClaims.field_cnf]
  rfl

omit [Locale] in
/-- A usable token authenticates its holder, given a proof. -/
theorem exec_authenticateAgentPayload (h : Presents request claims verifier options)
    (hwritten : claims.Written) (hsession : claims.binding.WellFormed)
    (hdpop : request.dpop claims.confirmationJkt = .ok ()) {s : Store}
    {active : AgentIdentity × AgentBinding}
    (hactive : (resolveResourceTokenAgent (.leased (.signed claims)) options.issuer claims.sub
      claims.act.iss claims.act.sub).exec s = (.ok active, s)) :
    ∃ agent, (authenticateAgentPayload (.leased (.signed claims)) claims.payload options request
      realmrootCliClientId).exec s = (.ok agent, s) := by
  obtain ⟨text, hproof, htext⟩ := h.proof
  have hsub : nonempty (claims.payload.stringField "sub") = some claims.sub := by
    rw [Json.stringField, AgentTokenClaims.field_sub]
    exact nonempty_some hwritten.sub
  have hact : ∀ name text, (Json.object [("iss", .string claims.act.iss),
      ("sub", .string claims.act.sub)]).stringField name = some text → text ≠ "" →
        nonempty (objectStringClaim claims.payload "act" name) = some text := by
    intro name text hfield hne
    rw [objectStringClaim, AgentTokenClaims.field_act]
    exact (congrArg nonempty hfield).trans (nonempty_some hne)
  have hread : requireAgentBinding claims.payload = .ok (some claims.binding) := by
    rw [requireAgentBinding_eq_ok]
    exact hsession.read claims.field_binding
  have hresolve : resolveTokenAgent (.leased (.signed claims)) claims.payload (some claims.binding)
      options.issuer realmrootCliClientId claims.sub =
        resolveResourceTokenAgent (.leased (.signed claims)) options.issuer claims.sub
          claims.act.iss claims.act.sub := by
    rw [resolveTokenAgent, if_neg (not_not.mpr rfl), hact "iss" _ rfl hwritten.actorIssuer,
      hact "sub" _ rfl hwritten.actorSubject]
  unfold authenticateAgentPayload
  rw [hsub, objectStringClaim_jkt, nonempty_some hwritten.confirmationJkt, hproof,
    nonempty_some htext, hread]
  dsimp only
  refine ⟨⟨options.issuer, active.1, active.2, claims.binding.runtime, claims.binding.sessionId,
    scopeClaim claims.payload, authorityClaim (claims.payload.field "realmroot_authority")⟩, ?_⟩
  refine (exec_bind_ok _ (a := claims.sub) (t := s) rfl).trans ?_
  refine (exec_bind_ok _ (a := claims.confirmationJkt) (t := s) rfl).trans ?_
  refine (exec_bind_ok _ (a := text) (t := s) rfl).trans ?_
  refine (exec_bind_ok _ (a := some claims.binding) (t := s) rfl).trans ?_
  rw [hresolve]
  refine (exec_bind_ok _ hactive).trans ?_
  rw [hdpop]
  rfl

/-- Whoever authenticates with a token is its holder, and the token is usable. -/
theorem holder_of_authenticated (h : AccessReachable pool)
    (hkeys : pool.store.directory.UniqueKeys) {principal : AgentResourcePrincipal}
    (hissued : IssuedTo pool credentials l claims principal) (hl : l ∈ pool.store.leases)
    (hhash : l.tokenHash = sha256 (.signed claims)) (hwritten : claims.Written) {agent : OAuthAgent}
    {s : Store} (hexec : (authenticateAgentPayload (.leased (.signed claims)) claims.payload options
      request realmrootCliClientId).exec pool.store = (.ok agent, s)) :
    (Usable pool.store credentials l claims ∧ request.dpop claims.confirmationJkt = .ok ()) ∧
      agent.identity.id = credentials.identityId ∧ agent.binding.id = credentials.bindingId ∧
        agent.runtime = credentials.runtime ∧ agent.sessionId = credentials.sessionId := by
  have hsees : (authenticateAgentPayload (.leased (.signed claims)) claims.payload options request
      realmrootCliClientId).Sees fun agent seen => (AgentSeen seen agent.identity agent.binding ∧
        ∃ l, LeaseSeen (.leased (.signed claims)) seen l ∧ agent.binding.id = l.bindingId) ∧
          ReadsBack claims.payload request agent := by
    refine sees_authenticateAgentPayload (P := fun active seen =>
      AgentSeen seen active.1 active.2 ∧
        ∃ l, LeaseSeen (.leased (.signed claims)) seen l ∧ active.2.id = l.bindingId) ?_
      fun binding subject => sees_resolveTokenAgent_signed hwritten.actorIssuer
        hwritten.actorSubject rfl binding _ subject
    rintro active seen seen' hsubset ⟨hagent, l, hl, hid⟩
    exact ⟨hagent.mono hsubset, l, hl.mono hsubset, hid⟩
  obtain ⟨seen, ⟨⟨hagent, l', hl', hid⟩, hreads⟩, hall⟩ := hsees.exec (I := fun s => s = pool.store)
    (queries_authenticateAgentPayload _ _ _ _ _) (fun op s hop hs => by rw [apply_isQuery hop, hs])
    rfl hexec
  obtain ⟨s₁, hs₁, hidentity, hstatus, hbinding, hlive⟩ := hagent
  obtain ⟨_, htoken, s₂, hs₂, s₃, hs₃, hlease⟩ := hl'
  obtain rfl := (PresentedToken.leased.inj htoken).symm
  rw [hall s₁ hs₁] at hidentity hbinding
  rw [hall s₂ hs₂, hall s₃ hs₃] at hlease
  have hfound := List.find?_some hlease
  rw [decide_eq_true_eq] at hfound
  obtain rfl : l' = l := eq_of_key_eq h.valid.tokens (List.mem_of_find?_eq_some hlease) hl
    (hfound.1.trans hhash.symm)
  rw [hissued.lease] at hid
  rw [Directory.bindingsOf, List.mem_filter, decide_eq_true_eq] at hbinding
  obtain ⟨s, hs, _, hread⟩ := hissued.read
  have howned : agent.identity.id = credentials.identityId := by
    rw [← hbinding.2, ← hissued.owned]
    exact agentIdentityId_eq h hkeys.bindings List.mem_cons_self hs hbinding.1 hread
      (hid.trans hissued.bindingId.symm)
  obtain ⟨jkt, hjkt, hdpop⟩ := hreads.confirmed
  rw [objectStringClaim_jkt] at hjkt
  obtain ⟨binding, hclaim, hruntime, hsession⟩ := hreads.session
  obtain rfl := AgentBindingClaim.eq_of_read (AgentBindingClaim.encode_eq_ok hwritten.binding).2
    claims.field_binding hclaim
  rw [Option.bind_some, hissued.binding] at hruntime hsession
  refine ⟨⟨⟨hfound.2, ⟨agent.identity, ?_, hstatus⟩, ⟨agent.binding, hbinding.1, hid, hlive⟩,
    wellFormed_of_read hclaim⟩, ?_⟩, howned, hid, hruntime.trans hissued.runtime,
    hsession.trans hissued.sessionId⟩
  · rw [← howned]
    exact hidentity
  · rw [Option.some.inj hjkt]
    exact hdpop

/-- A token authenticates the Agent that it was issued to, with its runtime session, and does so
exactly as long as what it depends on is there and the proof is one of its key. -/
theorem token_authenticates_holder (h : AccessReachable pool)
    (hkeys : pool.store.directory.UniqueKeys) (ht : t ∈ pool.threads) {requestId : Id}
    {proof : TokenProof} (hcall : t.call = .issueTargetAccessToken requestId proof credentials)
    {e : Event Store Operation} (he : e ∈ t.log) (hinserts : Inserts e l₀)
    (htoken : l₀.accessToken = .signed claims) (hl : l ∈ pool.store.leases) (hid : l.id = l₀.id)
    (hwritten : claims.Written) (hpresents : Presents request claims verifier options) :
    ((∃ agent t, (authenticateOAuthAgent verifier options request).exec pool.store =
        (.ok (some agent), t)) ↔
      Usable pool.store credentials l claims ∧ request.dpop claims.confirmationJkt = .ok ()) ∧
    ∀ agent t, (authenticateOAuthAgent verifier options request).exec pool.store =
        (.ok (some agent), t) →
      agent.identity.id = credentials.identityId ∧ agent.binding.id = credentials.bindingId ∧
        agent.runtime = credentials.runtime ∧ agent.sessionId = credentials.sessionId := by
  obtain ⟨principal, hissued₀⟩ := issuedTo_of_inserts h ht hcall he hinserts htoken
  have hpersists := current_of_inserts h ht he hinserts hl hid
  have hissued := hissued₀.current hpersists
  have hhash := tokenHash_of_inserts h ht he hinserts htoken hpersists
  rw [authenticateOAuthAgent_presents hpresents hissued.clientId]
  have hread : ∀ {agent s}, (some <$> authenticateAgentPayload (.leased (.signed claims))
      claims.payload options request realmrootCliClientId).exec pool.store =
        (.ok (some agent), s) → ∃ s', (authenticateAgentPayload (.leased (.signed claims))
          claims.payload options request realmrootCliClientId).exec pool.store =
            (.ok agent, s') := by
    intro agent s hexec
    obtain ⟨agent', s', hexec', hsome⟩ := exec_bind_inv hexec
    obtain rfl : agent' = agent := Option.some.inj (Except.ok.inj (Prod.mk.inj hsome).1)
    exact ⟨s', hexec'⟩
  refine ⟨⟨fun ⟨agent, s, hexec⟩ => ?_, ?_⟩, fun agent s hexec => ?_⟩
  · obtain ⟨s', hexec'⟩ := hread hexec
    exact (holder_of_authenticated h hkeys hissued hl hhash hwritten hexec').1
  swap
  · obtain ⟨s', hexec'⟩ := hread hexec
    exact (holder_of_authenticated h hkeys hissued hl hhash hwritten hexec').2
  rintro ⟨⟨hactive, ⟨i, hi, hstatus⟩, ⟨b, hb, hid, hlive⟩, hsession⟩, hdpop⟩
  obtain ⟨hidentity, howner, hsubject⟩ := identity_of_usable h hkeys hissued hi
  have hissuer : claims.act.iss = options.issuer := by
    rw [hpresents.issuer, hissued.iss, hissued.act]
  rw [← hidentity] at hi
  have hbinding := binding_of_usable h hkeys hissued hb hid hlive
  rw [← hidentity] at hbinding
  have hresolved := exec_resolveResourceTokenAgent hissuer hsubject howner
    (lease_of_usable h hl hhash hactive) hi hstatus hbinding
  obtain ⟨agent, hexec⟩ :=
    exec_authenticateAgentPayload hpresents hwritten hsession hdpop hresolved
  exact ⟨agent, pool.store, exec_bind_ok _ hexec⟩

end Holder

namespace Sample

/-- The only thread that inserts leases is the call of the sample Agent. -/
def issuesForAgent (t : Thread Call Store Operation Failure Reply) : Bool :=
  match t.call with
  | .issueTargetAccessToken _ _ credentials =>
    decide (credentials.identityId = "a" ∧ credentials.bindingId = "b" ∧
      credentials.runtime = none ∧ credentials.sessionId = none)
  | _ => t.log.all fun e =>
    match e.operation with
    | .issueTokenLease _ => false
    | _ => true

def agentClaims (l : TokenLease) : Option AgentTokenClaims :=
  match l.accessToken with
  | .signed claims =>
    if claims.sub ≠ "" ∧ claims.confirmationJkt ≠ "" ∧ claims.act.iss ≠ "" ∧ claims.act.sub ≠ "" ∧
        claims.binding.runtime.isNone = claims.binding.sessionId.isNone ∧
        tokenVerifier (.leased (.signed claims)) "iss" "https://realm/api" = some claims.payload ∧
        claims.iss = "iss" then some claims
    else none
  | .external _ => none

theorem agentClaims_eq_some {l : TokenLease} {claims : AgentTokenClaims}
    (h : agentClaims l = some claims) : l.accessToken = .signed claims ∧ claims.Written ∧
      Presents (agentRequest (.signed claims)) claims tokenVerifier agentOptions := by
  unfold agentClaims at h
  split at h
  · rename_i found hfound
    split at h
    · rename_i hchecked
      obtain rfl := Option.some.inj h
      obtain ⟨hsub, hjkt, hiss, hsubject, hpaired, hverified, hissuer⟩ := hchecked
      refine ⟨hfound, ⟨hsub, hjkt, hiss, hsubject, ?_⟩, rfl, ⟨"proof", rfl, by decide⟩, hverified,
        hissuer.symm⟩
      rw [AgentBindingClaim.encode, if_neg (by simp [hpaired])]
    · cases h
  · cases h

def holdsToken (pool : AccessPool) : Bool :=
  pool.store.leases.any fun l => (agentClaims l).any fun claims =>
    match ((authenticateOAuthAgent tokenVerifier agentOptions
      (agentRequest (.signed claims))).exec pool.store).1 with
    | .ok (some _) => true
    | _ => false

set_option maxRecDepth 10000 in
/-- The sample token is accepted, and the Agent that it authenticates is the sample Agent. -/
theorem token_authenticates_agent : ∃ (pool : AccessPool) (l : TokenLease)
    (claims : AgentTokenClaims) (agent : OAuthAgent), Usable pool.store Sample.agent l claims ∧
      agent.identity.id = "a" ∧ agent.binding.id = "b" := by
  have hrun : (((Pool.initial agentStore).run Call.program (fun _ _ => true) agentMoves).any
      fun pool => holdsToken pool && decide pool.store.directory.UniqueKeys &&
        pool.threads.all issuesForAgent) = true := by
    decide +kernel
  obtain ⟨pool, hpool, hcheck⟩ := (Option.any_eq_true _ _).mp hrun
  have hreach : AccessReachable pool :=
    Reachable.of_run (fun _ _ _ => trivial) (.initial ⟨rfl, rfl, rfl, rfl⟩) hpool
  simp only [Bool.and_eq_true, decide_eq_true_eq, List.all_eq_true] at hcheck
  obtain ⟨⟨hholds, hkeys⟩, hissues⟩ := hcheck
  obtain ⟨l, hl, hclaims⟩ := List.any_eq_true.mp hholds
  obtain ⟨claims, hclaims, haccepted⟩ := (Option.any_eq_true _ _).mp hclaims
  obtain ⟨htoken, hwritten, hpresents⟩ := agentClaims_eq_some hclaims
  obtain ⟨t, ht, e, he, l₀, hinserts, hpersists⟩ := inserted_of_mem hreach hl
  have hthread := hissues t ht
  unfold issuesForAgent at hthread
  split at hthread
  · rename_i requestId proof credentials hcall
    have hcredentials : credentials = Sample.agent := by
      rw [decide_eq_true_eq] at hthread
      obtain ⟨identityId, bindingId, runtime, sessionId⟩ := credentials
      obtain ⟨rfl, rfl, rfl, rfl⟩ := hthread
      rfl
    rw [hcredentials] at hcall
    split at haccepted
    · rename_i agent hagent
      have hsigned : l₀.accessToken = .signed claims := by
        rw [← htoken, hpersists.columns]
      have hexec : (authenticateOAuthAgent tokenVerifier agentOptions
          (agentRequest (.signed claims))).exec pool.store = (.ok (some agent), _) :=
        Prod.ext hagent rfl
      have hholder := token_authenticates_holder hreach hkeys ht hcall he hinserts hsigned hl
        hpersists.id hwritten hpresents
      exact ⟨pool, l, claims, agent, (hholder.1.mp ⟨agent, _, hexec⟩).1,
        (hholder.2 agent _ hexec).1, (hholder.2 agent _ hexec).2.1⟩
    · cases haccepted
  · obtain ⟨⟨i, hop, _⟩, _⟩ := hinserts
    have hother := List.all_eq_true.mp hthread e he
    rw [hop] at hother
    cases hother

end Sample

end FlareAuth
