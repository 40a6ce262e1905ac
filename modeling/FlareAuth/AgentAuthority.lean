import FlareAuth.AgentAuthentication
import FlareAuth.ScopeSightings
import FlareAuth.TokenLeases

/-!
# What an authenticated Agent may do

Whatever a tenant allows an Agent was granted: the token that the Agent presented has an active
lease, which some call has stored for the binding it was found with, and the authority and the
scopes that the token carries are those of the request and of the entitlements that backed the
lease. A bootstrap token opens no tenant at all.
-/

namespace FlareAuth

open Concurrent Procedure Access Relational

section Sightings

def LeaseSeen (token : PresentedToken) (seen : List Store) (l : TokenLease) : Prop :=
  ∃ accessToken, token = .leased accessToken ∧ ∃ s ∈ seen, ∃ s' ∈ seen,
    s.findActiveTokenLeaseByTokenHash (sha256 accessToken) s'.now = some l

def AgentSeen (seen : List Store) (identity : AgentIdentity) (binding : AgentBinding) : Prop :=
  ∃ s ∈ seen, s.directory.findIdentity identity.id = some identity ∧ identity.status = .active ∧
    binding ∈ s.directory.bindingsOf identity.id ∧ binding.live = true

theorem LeaseSeen.mono {token : PresentedToken} {seen seen' : List Store} {l : TokenLease}
    (h : LeaseSeen token seen l) (hseen : seen ⊆ seen') : LeaseSeen token seen' l := by
  obtain ⟨accessToken, htoken, s, hs, s', hs', hfound⟩ := h
  exact ⟨accessToken, htoken, s, hseen hs, s', hseen hs', hfound⟩

theorem AgentSeen.mono {seen seen' : List Store} {identity : AgentIdentity} {binding : AgentBinding}
    (h : AgentSeen seen identity binding) (hseen : seen ⊆ seen') :
    AgentSeen seen' identity binding := by
  obtain ⟨s, hs, hfound⟩ := h
  exact ⟨s, hseen hs, hfound⟩

theorem sees_findActiveLease (token : PresentedToken) (now : ℕ) :
    (findActiveLease token now).Sees fun found seen => ∀ l, found = some l →
      ∃ accessToken, token = .leased accessToken ∧ ∃ s ∈ seen,
        s.findActiveTokenLeaseByTokenHash (sha256 accessToken) now = some l := by
  cases token with
  | leased accessToken =>
    refine (sees_ask _ _).mono fun found seen ⟨s, hfound, hseen⟩ l hl =>
      ⟨accessToken, rfl, s, ?_, ?_⟩
    · rw [hseen]
      exact List.mem_cons_self
    · rw [← hfound, hl]
  | plain payload =>
    refine sees_done fun l hl => ?_
    cases hl

theorem mem_of_resolved {d : Directory} {identity : AgentIdentity} {l : TokenLease}
    {active : AgentIdentity × AgentBinding}
    (h : (((d.findIdentity identity.id).map fun i => (i, d.bindingsOf i.id)).bind
      fun (i, bindings) => if i.status = .active then
        (bindings.find? fun b => b.id = l.bindingId ∧ b.live = true).map fun b => (i, b)
      else none) = some active) :
    active.1.id = identity.id ∧ d.findIdentity active.1.id = some active.1 ∧
      active.1.status = .active ∧ active.2 ∈ d.bindingsOf active.1.id ∧ active.2.live = true ∧
      active.2.id = l.bindingId := by
  rw [Option.bind_map, Option.bind_eq_some_iff] at h
  obtain ⟨i, hi, h⟩ := h
  dsimp only [Function.comp_apply] at h
  by_cases hstatus : i.status = .active
  · rw [if_pos hstatus, Option.map_eq_some_iff] at h
    obtain ⟨b, hb, rfl⟩ := h
    have hid : i.id = identity.id := by
      have hfound := List.find?_some hi
      simp only [decide_eq_true_eq] at hfound
      exact hfound.1
    have hbinding := List.find?_some hb
    simp only [decide_eq_true_eq] at hbinding
    refine ⟨hid, ?_, hstatus, List.mem_of_find?_eq_some hb, hbinding.2, hbinding.1⟩
    dsimp only
    rw [hid, hi]
  · rw [if_neg hstatus] at h
    cases h

/-- A token with an actor is that of a lease, and its Agent is the one that the lease is bound
to. -/
theorem sees_resolveResourceTokenAgent (token : PresentedToken)
    (issuer ownerSubject actorIssuer actorSubject : String) :
    (resolveResourceTokenAgent token issuer ownerSubject actorIssuer actorSubject).Sees
      fun active seen => AgentSeen seen active.1 active.2 ∧
        ∃ l, LeaseSeen token seen l ∧ active.2.id = l.bindingId := by
  refine (sees_require _ _).bind fun _ _ _ => (sees_look _).bind fun found _ _ => ?_
  refine (sees_query _ _).bind fun now second ⟨s', hnow, hsecond⟩ => ?_
  refine (sees_findActiveLease _ _).bind fun foundLease third hlease => ?_
  refine (sees_orThrow _ _).bind fun identity _ _ => ?_
  refine (sees_orThrow _ _).bind fun l _ ⟨hl, _⟩ => (sees_require _ _).bind fun _ _ _ => ?_
  refine (sees_look _).bind fun aggregate fourth ⟨s, haggregate, hfourth⟩ => ?_
  refine (sees_orThrow _ _).mono fun active fifth ⟨hactive, _⟩ => ?_
  rw [haggregate] at hactive
  obtain ⟨_, hfound, hstatus, hmem, hlive, hbinding⟩ := mem_of_resolved hactive
  refine ⟨⟨s, by simp [hfourth], hfound, hstatus, hmem, hlive⟩, l, ?_, hbinding⟩
  obtain ⟨accessToken, htoken, t, ht, hread⟩ := hlease l hl
  rw [hnow] at hread
  exact ⟨accessToken, htoken, t, by simp [ht], s', by simp [hsecond], hread⟩

variable {token : PresentedToken} {payload : Json} {options : OAuthOptions}
  {request : AgentTokenRequest} {clientId : String}

/-- What an authenticated Agent has of the payload of its token, whatever its kind. -/
structure ReadsBack (payload : Json) (request : AgentTokenRequest) (agent : OAuthAgent) : Prop where
  scopes : agent.scopes = scopeClaim payload
  authority : agent.authority = authorityClaim (payload.field "realmroot_authority")
  confirmed : ∃ jkt, objectStringClaim payload "cnf" "jkt" = some jkt ∧ request.dpop jkt = .ok ()
  session : ∃ binding, readRealmrootAgentBinding payload = .ok binding ∧
    agent.runtime = binding.bind (·.runtime) ∧ agent.sessionId = binding.bind (·.sessionId)

theorem requireAgentBinding_eq_ok {binding : Option AgentBindingClaim} :
    requireAgentBinding payload = .ok binding ↔
      readRealmrootAgentBinding payload = .ok binding := by
  unfold requireAgentBinding
  cases readRealmrootAgentBinding payload with
  | error e =>
    constructor
    · intro h
      cases h
    · intro h
      cases h
  | ok found => rfl

theorem sees_authenticateAgentPayload {P : AgentIdentity × AgentBinding → List Store → Prop}
    (hP : ∀ active seen seen', seen ⊆ seen' → P active seen → P active seen')
    (h : ∀ binding subject, (resolveTokenAgent token payload binding options.issuer clientId
      subject).Sees P) :
    (authenticateAgentPayload token payload options request clientId).Sees fun agent seen =>
      P (agent.identity, agent.binding) seen ∧ ReadsBack payload request agent := by
  refine (sees_orThrow _ _).bind fun subject _ _ =>
    (sees_orThrow _ _).bind fun jkt _ ⟨hjkt, _⟩ => ?_
  refine (sees_orThrow _ _).bind fun _ _ _ => (sees_ofExcept _).bind fun binding _ ⟨hread, _⟩ => ?_
  refine (h binding subject).bind fun active first hactive => ?_
  refine (sees_ofExcept _).bind fun _ _ ⟨hdpop, _⟩ => sees_done ⟨hP _ _ _ (by simp) hactive, ?_⟩
  exact ⟨rfl, rfl, ⟨jkt, (Option.filter_eq_some_iff.mp hjkt).1, hdpop⟩, binding,
    requireAgentBinding_eq_ok.mp hread, rfl, rfl⟩

end Sightings

section Origins

variable [Locale] {pool : AccessPool}

/-- A lease that was there at some time was inserted by a call of the run. -/
theorem inserted_of_seen (h : AccessReachable pool) {s : Store} (hs : s ∈ pool.history)
    {l : TokenLease} (hl : l ∈ s.leases) :
    ∃ t ∈ pool.threads, ∃ e ∈ t.log, ∃ l₀, Inserts e l₀ ∧ l₀.Persists l := by
  obtain ⟨pool₀, hreach, rfl, hthreads⟩ := h.of_history hs
  obtain ⟨t₀, ht₀, e, he, l₀, hinserts, hpersists⟩ := inserted_of_mem hreach hl
  obtain ⟨t, ht, _, hlog⟩ := hthreads t₀ ht₀
  exact ⟨t, ht, e, hlog.subset he, l₀, hinserts, hpersists⟩

/-- What an inserted lease of a signed token was issued for. -/
theorem issued_of_inserts (h : AccessReachable pool) {t : Thread Call Store Operation Failure Reply}
    (ht : t ∈ pool.threads) {e : Event Store Operation} (he : e ∈ t.log) {l : TokenLease}
    (hinserts : Inserts e l) :
    ∃ log i c request, log ⊆ t.log ∧ Issued log i c ∧ i.lease = l ∧ c.request.Persists request ∧
      l.Backed e.before l.createdAt request
        (c.entitlements.map e.before.current) := by
  obtain ⟨i, hop, rfl, hadmits⟩ := hinserts.admits
  obtain ⟨later, earlier, hlog⟩ := List.append_of_mem he
  obtain ⟨pool₀, k, t₀, after, hreach, _, hk, _, hlog₀, hrest, hstore, _⟩ := h.of_log ht hlog
  rw [hop] at hrest
  have ht₀ := List.mem_of_getElem? hk
  obtain ⟨c, hissued⟩ := issued_of_pending hreach ht₀ hrest
  rw [← hstore] at hadmits ⊢
  obtain ⟨request, hbacked, hpersists⟩ := backed_of_admits hreach ht₀ hissued hadmits
  refine ⟨t₀.log, i, c, request, ?_, hissued, rfl, hpersists, hbacked⟩
  rw [hlog₀, hlog]
  exact fun x hx => List.mem_append_right _ (List.mem_cons_of_mem _ hx)

/-- Bindings of one identifier belong to one identity, whenever they were read. -/
theorem agentIdentityId_eq (h : AccessReachable pool)
    (hkeys : (pool.store.directory.bindings.map (·.id)).Nodup) {s s' : Store}
    (hs : s ∈ pool.history) (hs' : s' ∈ pool.history) {b b' : AgentBinding}
    (hb : b ∈ s.directory.bindings) (hb' : b' ∈ s'.directory.bindings) (hid : b.id = b'.id) :
    b.agentIdentityId = b'.agentIdentityId := by
  have hevolves := (h.evolves_history persists_evolution s hs).directory.bindings
  have hevolves' := (h.evolves_history persists_evolution s' hs').directory.bindings
  obtain ⟨c, hc, hpersists⟩ := hevolves.exists_of_mem hb
  obtain ⟨c', hc', hpersists'⟩ := hevolves'.exists_of_mem hb'
  have hsame : c = c' := by
    refine eq_of_key_eq hkeys hc hc' ?_
    rw [hpersists.id, hpersists'.id, hid]
  rw [← hpersists.agentIdentityId, hsame, hpersists'.agentIdentityId]

end Origins

section Scopes

theorem isWord_realmrootOAuthScopes : ∀ scope ∈ realmrootOAuthScopes, Text.IsWord scope := by
  have hall : ((agentBootstrapScopes ++ realmrootManagementScopes).all fun scope =>
      !scope.toList.isEmpty && scope.toList.all fun c => !Text.isSpace c) = true := by
    decide +kernel
  intro scope h
  rw [realmrootOAuthScopes, Text.mem_unique] at h
  have hscope := List.all_eq_true.mp hall scope h
  simpa [Text.IsWord] using hscope

theorem isWord_of_bootstrap {scope : String} (h : scope ∈ agentBootstrapScopes) :
    Text.IsWord scope := by
  refine isWord_realmrootOAuthScopes scope ?_
  rw [realmrootOAuthScopes, Text.mem_unique]
  exact List.mem_append_left _ h

theorem registered_of_validate {resource : ApiResource} {scopes : List String}
    (h : validateResourceRequestedScopes resource scopes = .ok ())
    (hresource : resource.isRealmroot = true) : ∀ scope ∈ scopes, scope ∈ realmrootOAuthScopes := by
  unfold validateResourceRequestedScopes at h
  rw [if_pos hresource] at h
  split at h
  · cases h
  · rename_i hnone
    intro scope hscope
    by_contra hmissing
    refine hnone (List.any_eq_true.mpr ⟨scope, hscope, ?_⟩)
    simp [hmissing]

/-- The scopes of a token for Realmroot's own API are read back one by one. -/
theorem mem_scopeClaim {c : IssuanceContext} {claims : AgentTokenClaims}
    (hresource : c.resource.isRealmroot = true)
    (hscopes : validateResourceRequestedScopes c.resource c.scopes = .ok ())
    (hclaims : claims.scope = Text.join c.issuedScopes) {scope : String} :
    scope ∈ scopeClaim claims.payload ↔ scope ∈ agentBootstrapScopes ∨ scope ∈ c.scopes := by
  have hissued : ∀ scope, scope ∈ c.issuedScopes ↔
      scope ∈ agentBootstrapScopes ∨ scope ∈ c.scopes := by
    intro scope
    rw [IssuanceContext.issuedScopes, if_pos hresource, Text.mem_sort, Text.mem_unique,
      List.mem_append]
  have hwords : ∀ scope ∈ c.issuedScopes, Text.IsWord scope := by
    intro scope hscope
    rcases (hissued scope).mp hscope with hbootstrap | hgranted
    · exact isWord_of_bootstrap hbootstrap
    · exact isWord_realmrootOAuthScopes scope
        (registered_of_validate hscopes hresource scope hgranted)
  have hfield : claims.payload.stringField "scope" = some (Text.join c.issuedScopes) := by
    rw [Json.stringField, AgentTokenClaims.field_scope, hclaims]
  rw [scopeClaim, hfield, Option.map_some, Option.getD_some, Text.mem_unique,
    Text.split_join hwords, hissued]

theorem singleton_of_native {details : List AuthorizationDetail}
    (h : isNativeAuthoritySelection details = true) : ∃ detail, details = [detail] := by
  unfold isNativeAuthoritySelection at h
  split at h
  · exact ⟨_, rfl⟩
  · cases h

/-- An Agent is allowed what its token carries, for the tenant of its authority, or for every tenant
under the authority of the platform Organization. -/
theorem agent_authorized_iff {agent : OAuthAgent} {d : Directory} {target : AuthorizationTenant}
    {scope : String} : Authorized d agent.principal target scope ↔
      ∃ platform, d.findPlatformOrganization = some platform ∧ scope ∈ agent.scopes ∧
        (agent.authority = some (.organization platform.id) ∨
          agent.authority.getD (.user "") = target) := by
  rw [authorized_iff, resolveAuthorizationContext, Directory.requirePlatformOrganization]
  cases d.findPlatformOrganization with
  | none =>
    constructor
    · rintro ⟨_, ⟨⟩, _⟩
    · rintro ⟨_, ⟨⟩, _⟩
  | some platform =>
    constructor
    · rintro ⟨_, ⟨⟩, htenant, hscope⟩
      refine ⟨platform, rfl, hscope, ?_⟩
      by_cases hplatform : agent.authority = some (.organization platform.id)
      · exact .inl hplatform
      · dsimp only at htenant
        rw [if_neg hplatform] at htenant
        exact .inr htenant
    · rintro ⟨_, ⟨⟩, hscope, htenant⟩
      refine ⟨_, rfl, ?_, hscope⟩
      dsimp only
      by_cases hplatform : agent.authority = some (.organization platform.id)
      · rw [if_pos hplatform]
      · rw [if_neg hplatform]
        exact htenant.resolve_left hplatform

end Scopes

section Kinds

variable {token : PresentedToken} {options : OAuthOptions} {clientId : String}

theorem isWord_of_normalize {value : Option String} {scopes : List String}
    (h : normalizeBootstrapScopes value = .ok scopes) : ∀ scope ∈ scopes, Text.IsWord scope := by
  unfold normalizeBootstrapScopes at h
  dsimp only at h
  split at h
  · cases h
  · obtain rfl := (Except.ok.inj h).symm
    intro scope hscope
    rw [Text.mem_sort, Text.mem_unique] at hscope
    exact Text.isWord_of_mem_split hscope

/-- The scopes of a bootstrap token are read back, and they are bootstrap scopes. -/
theorem scopeClaim_of_bootstrap {input : BootstrapRequest} {principal : AgentResourcePrincipal}
    {issuer : String} {now : ℕ} {jti : String} {claims : BootstrapClaims}
    (h : issueAgentBootstrapAccessToken input principal issuer now jti = .ok claims) :
    scopeClaim claims.payload ⊆ agentBootstrapScopes := by
  unfold issueAgentBootstrapAccessToken at h
  dsimp only at h
  by_cases hclient : input.clientId ≠ "" ∧ input.clientId ≠ realmrootCliClientId
  · rw [if_pos hclient] at h
    cases h
  rw [if_neg hclient] at h
  by_cases hresource : input.resource ≠ input.expectedResource
  · rw [if_pos hresource] at h
    cases h
  rw [if_neg hresource] at h
  obtain ⟨scopes, hscopes, h⟩ := except_bind_eq_ok h
  by_cases hallowed : (scopes.any fun scope => !agentBootstrapScopes.contains scope) = true
  · rw [if_pos hallowed] at h
    cases h
  rw [if_neg hallowed] at h
  obtain ⟨confirmationJkt, _, h⟩ := except_bind_eq_ok h
  obtain ⟨_, _, h⟩ := except_bind_eq_ok h
  have hwritten : claims.scope = Text.join scopes := by rw [← Except.ok.inj h]
  have hread : scopeClaim claims.payload = Text.unique (Text.split claims.scope) := rfl
  intro scope hscope
  rw [hread, hwritten, Text.split_join (isWord_of_normalize hscopes), Text.mem_unique] at hscope
  by_contra hmissing
  refine hallowed (List.any_eq_true.mpr ⟨scope, hscope, ?_⟩)
  simp [hmissing]

/-- A token whose claims name an actor is only accepted with a lease. -/
theorem sees_resolveTokenAgent_signed {claims : AgentTokenClaims} (hiss : claims.act.iss ≠ "")
    (hsub : claims.act.sub ≠ "") (hclient : clientId = realmrootCliClientId)
    (binding : Option AgentBindingClaim) (issuer subject : String) :
    (resolveTokenAgent token claims.payload binding issuer clientId subject).Sees
      fun active seen => AgentSeen seen active.1 active.2 ∧
        ∃ l, LeaseSeen token seen l ∧ active.2.id = l.bindingId := by
  have hissuer : nonempty (objectStringClaim claims.payload "act" "iss") = some claims.act.iss := by
    rw [objectStringClaim, AgentTokenClaims.field_act]
    simp [Json.stringField, Json.field, nonempty, hiss]
  have hsubject : nonempty (objectStringClaim claims.payload "act" "sub") =
      some claims.act.sub := by
    rw [objectStringClaim, AgentTokenClaims.field_act]
    simp [Json.stringField, Json.field, nonempty, hsub]
  rw [resolveTokenAgent, if_neg (not_not.mpr hclient), hissuer, hsubject]
  exact sees_resolveResourceTokenAgent _ _ _ _ _

theorem stringField_subProfile (claims : AgentTokenClaims) :
    claims.payload.stringField "sub_profile" = none := by
  rw [Json.stringField, AgentTokenClaims.field_payload claims (by decide)]
  simp [Json.field, realmrootOrganizationClaim, TokenExchange.realmrootOrganizationClaim,
    realmrootAgentBindingClaim]

end Kinds

section Authority

variable [Locale] {pool : AccessPool}

/-- A token that an Agent may have: one with an actor, or a bootstrap token as it is issued. -/
def PresentedToken.OfAgent : PresentedToken → Prop
  | .leased (.signed claims) => claims.act.iss ≠ "" ∧ claims.act.sub ≠ ""
  | .leased (.external _) => True
  | .plain payload => ∃ input principal issuer now jti claims,
      issueAgentBootstrapAccessToken input principal issuer now jti = .ok claims ∧
        payload = claims.payload

/-- A token of an Agent may do this at the tenant: it has an active lease, which was stored for the
binding that the Agent has now, for a request of the Agent with this authority, and on account of
entitlements that were active at the time and with which the token has the scope. -/
def GrantedByLease (pool : AccessPool) (token : PresentedToken) (seen : List Store)
    (agent : OAuthAgent) (platformId : Id) (target : AuthorizationTenant) (scope : String) : Prop :=
  AgentSeen seen agent.identity agent.binding ∧
    ∃ l, LeaseSeen token seen l ∧ agent.binding.id = l.bindingId ∧
      ∃ t ∈ pool.threads, ∃ e ∈ t.log, ∃ l₀, Inserts e l₀ ∧ l₀.Persists l ∧
        ∃ request entitlements, l₀.Backed e.before l₀.createdAt request entitlements ∧
          request.agentIdentityId = agent.identity.id ∧
          (∃ detail owner, request.authorizationDetails = [detail] ∧
            authorityClaim (some detail) = some owner ∧
            (owner = target ∨ owner = .organization platformId)) ∧
          (scope ∈ agentBootstrapScopes ∨ ∃ x ∈ entitlements, x.scope = scope)

structure SignedIn (claims : AgentTokenClaims) (c : IssuanceContext) : Prop where
  native : isNativeAuthoritySelection c.request.authorizationDetails = true
  scopes : validateResourceRequestedScopes c.resource c.scopes = .ok ()
  scope : claims.scope = Text.join c.issuedScopes
  authority : claims.realmrootAuthority = if c.resource.isRealmroot then some c.authority else none

/-- The lease of a token is found by its hash, and so it is a lease of this very token. -/
theorem signedIn_of_issued {log : AccessLog} {i : Issuance} {c : IssuanceContext}
    (hissued : Issued log i c) {claims : AgentTokenClaims} {l : TokenLease}
    (hpersists : i.lease.Persists l) (hhash : l.tokenHash = sha256 (.signed claims)) :
    SignedIn claims c := by
  have hsigned : i.lease.accessToken = .signed claims := by
    have hlease : l.tokenHash = sha256 i.lease.accessToken := by
      rw [hpersists.columns, hissued.lease]
      rfl
    exact (congrArg Digest.preimage (hhash.symm.trans hlease)).symm
  obtain ⟨hnative, u, groups, _, hclaims⟩ := hissued.token claims hsigned
  rw [hclaims]
  exact ⟨hnative, hissued.backed.scopes, rfl, rfl⟩

namespace SignedIn

variable {claims : AgentTokenClaims} {c : IssuanceContext} {agent : OAuthAgent} {platformId : Id}
  {target : AuthorizationTenant} {scope : String}

omit [Locale] in
/-- A token that opens a tenant is one for Realmroot's own API. -/
theorem isRealmroot (h : SignedIn claims c) (htarget : target ≠ .user "")
    (hauthority : agent.authority = authorityClaim claims.realmrootAuthority)
    (htenant : agent.authority = some (.organization platformId) ∨
      agent.authority.getD (.user "") = target) : c.resource.isRealmroot = true := by
  by_contra hother
  rw [h.authority, if_neg hother] at hauthority
  rw [hauthority] at htenant
  rcases htenant with htenant | htenant
  · cases htenant
  · exact htarget htenant.symm

omit [Locale] in
/-- The authority of the token is that of the request's only detail. -/
theorem owner (h : SignedIn claims c) (htarget : target ≠ .user "")
    (hauthority : agent.authority = authorityClaim claims.realmrootAuthority)
    (htenant : agent.authority = some (.organization platformId) ∨
      agent.authority.getD (.user "") = target) :
    ∃ detail owner, c.request.authorizationDetails = [detail] ∧
      authorityClaim (some detail) = some owner ∧
      (owner = target ∨ owner = .organization platformId) := by
  obtain ⟨detail, hdetail⟩ := singleton_of_native h.native
  have hresource := h.isRealmroot htarget hauthority htenant
  have hsome : agent.authority = authorityClaim (some detail) := by
    rw [hauthority, h.authority, if_pos hresource, IssuanceContext.authority, hdetail]
    rfl
  rw [hsome] at htenant
  cases howner : authorityClaim (some detail) with
  | none =>
    rw [howner] at htenant
    rcases htenant with htenant | htenant
    · cases htenant
    · exact absurd htenant.symm htarget
  | some owner =>
    rw [howner] at htenant
    refine ⟨detail, owner, hdetail, howner, ?_⟩
    rcases htenant with htenant | htenant
    · exact .inr (Option.some.inj htenant)
    · exact .inl htenant

end SignedIn

/-- The binding of a lease is that of the Agent that asked for the token. -/
theorem agentIdentityId_of_lease (h : AccessReachable pool)
    (hkeys : (pool.store.directory.bindings.map (·.id)).Nodup) {seen : List Store}
    (hseen : seen ⊆ pool.history) {agent : OAuthAgent}
    (hagent : AgentSeen seen agent.identity agent.binding)
    {t : Thread Call Store Operation Failure Reply} (ht : t ∈ pool.threads) {log : AccessLog}
    (hlog : log ⊆ t.log) {c : IssuanceContext} (hbacked : Backed log c)
    (hid : agent.binding.id = c.principal.binding.id) :
    c.request.agentIdentityId = agent.identity.id := by
  obtain ⟨d, hd, _, hread, howner⟩ := hbacked.principal
  obtain ⟨s, hs, _, _, hb, _⟩ := hagent
  rw [Directory.bindingsOf, List.mem_filter, decide_eq_true_eq] at hb
  have hpast := List.mem_cons_of_mem pool.store (h.before_mem_past t ht d (hlog hd))
  have hsame := agentIdentityId_eq h hkeys (hseen hs) hpast hb.1 hread hid
  calc c.request.agentIdentityId
      = c.principal.identity.id := hbacked.agent
    _ = c.principal.binding.agentIdentityId := howner.symm
    _ = agent.binding.agentIdentityId := hsame.symm
    _ = agent.identity.id := hb.2

/-- The authority and the scopes of a token with a lease are those that the lease was granted. -/
theorem granted_of_lease (h : AccessReachable pool)
    (hkeys : (pool.store.directory.bindings.map (·.id)).Nodup) {claims : AgentTokenClaims}
    {seen : List Store} (hseen : seen ⊆ pool.history) {agent : OAuthAgent}
    (hagent : AgentSeen seen agent.identity agent.binding) {l : TokenLease}
    (hl : LeaseSeen (.leased (.signed claims)) seen l) (hbinding : agent.binding.id = l.bindingId)
    (hscopes : agent.scopes = scopeClaim claims.payload)
    (hauthority : agent.authority = authorityClaim claims.realmrootAuthority) {platformId : Id}
    {target : AuthorizationTenant} {scope : String} (htarget : target ≠ .user "")
    (hscope : scope ∈ agent.scopes) (htenant : agent.authority = some (.organization platformId) ∨
      agent.authority.getD (.user "") = target) :
    GrantedByLease pool (.leased (.signed claims)) seen agent platformId target scope := by
  refine ⟨hagent, l, hl, hbinding, ?_⟩
  obtain ⟨accessToken, htoken, s, hs, s', _, hfound⟩ := hl
  obtain rfl : .signed claims = accessToken := PresentedToken.leased.inj htoken
  have hmem := List.mem_of_find?_eq_some hfound
  have hkey := List.find?_some hfound
  simp only [decide_eq_true_eq] at hkey
  obtain ⟨t, ht, e, he, l₀, hinserts, hpersists⟩ := inserted_of_seen h (hseen hs) hmem
  refine ⟨t, ht, e, he, l₀, hinserts, hpersists, ?_⟩
  obtain ⟨log, i, c, request, hlog, hissued, rfl, hrequest, hbacked⟩ :=
    issued_of_inserts h ht he hinserts
  have hsigned := signedIn_of_issued hissued hpersists hkey.1
  have hid : agent.binding.id = c.principal.binding.id := by
    rw [hbinding, hpersists.columns, hissued.lease]
    rfl
  refine ⟨request, _, hbacked, ?_, ?_, ?_⟩
  · rw [hrequest.agentIdentityId]
    exact agentIdentityId_of_lease h hkeys hseen hagent ht hlog hissued.backed hid
  · obtain ⟨detail, owner, hdetail, howner⟩ := hsigned.owner htarget hauthority htenant
    have hpending : c.request.status ≠ .pending := by
      rcases hissued.backed.decided with hstatus | hstatus <;> simp [hstatus]
    exact ⟨detail, owner, (hrequest.authorizationDetails hpending).trans hdetail, howner⟩
  · have hresource := hsigned.isRealmroot htarget hauthority htenant
    rw [hscopes, mem_scopeClaim hresource hsigned.scopes hsigned.scope] at hscope
    refine hscope.imp_right fun hgranted => ?_
    have hlease : i.lease.scopes = c.scopes := hissued.scopes
    rw [← hlease, hbacked.scopes, Text.mem_sort] at hgranted
    obtain ⟨x, hx, rfl⟩ := List.mem_map.mp hgranted
    exact ⟨x, hx, rfl⟩

/-- Whatever an Agent is allowed with a token, at any moment, was granted. -/
theorem agent_authorized_by_grant (h : AccessReachable pool)
    (hkeys : (pool.store.directory.bindings.map (·.id)).Nodup) {verifier : TokenVerifier}
    (hverifier : verifier.Verifies) (options : OAuthOptions) {request : AgentTokenRequest}
    (htokens : ∀ token, request.token = some token → token.OfAgent) :
    (authenticateOAuthAgent verifier options request).Sees fun answer seen =>
      seen ⊆ pool.history → ∀ agent, answer = some agent →
        (∀ payload, request.token = some (.plain payload) →
          agent.authority = none ∧ agent.scopes ⊆ agentBootstrapScopes) ∧
        ∀ d target scope, target ≠ .user "" → Authorized d agent.principal target scope →
          ∃ token platform, request.token = some token ∧
            d.findPlatformOrganization = some platform ∧
            GrantedByLease pool token seen agent platform.id target scope := by
  unfold authenticateOAuthAgent
  split
  · exact sees_done fun _ agent hagent => nomatch hagent
  rename_i token htoken
  split
  · exact trivial
  rename_i payload hpayload
  split
  · exact sees_done fun _ agent hagent => nomatch hagent
  rename_i clientId hclient
  by_cases hkind : clientId = realmrootCliClientId ∨
      payload.stringField "sub_profile" = some "ai_agent"
  swap
  · rw [if_neg hkind]
    exact sees_done fun _ agent hagent => nomatch hagent
  rw [if_pos hkind]
  refine Sees.map ?_
  have hofAgent := htokens token htoken
  match token, hofAgent with
  | .leased (.external value), _ =>
    rw [hverifier.external] at hpayload
    cases hpayload
  | .leased (.signed claims), ⟨hiss, hsub⟩ =>
    obtain ⟨rfl, _, _⟩ := hverifier.signed hpayload
    rw [stringField_subProfile] at hkind
    have hcli := hkind.resolve_right (by simp)
    refine (sees_authenticateAgentPayload (P := fun active seen =>
      AgentSeen seen active.1 active.2 ∧ ∃ l, LeaseSeen _ seen l ∧ active.2.id = l.bindingId)
      ?_ fun binding subject => sees_resolveTokenAgent_signed hiss hsub hcli _ _ _).mono ?_
    · rintro active seen seen' hsubset ⟨hagent, l, hl, hid⟩
      exact ⟨hagent.mono hsubset, l, hl.mono hsubset, hid⟩
    · rintro agent seen ⟨⟨hagent, l, hl, hid⟩, hreads⟩ hseen _ ⟨⟩
      refine ⟨fun payload hplain => ?_, fun d target scope htarget hauthorized => ?_⟩
      · rw [htoken] at hplain
        cases hplain
      obtain ⟨platform, hplatform, hscope, htenant⟩ := agent_authorized_iff.mp hauthorized
      have hauthority := hreads.authority
      rw [AgentTokenClaims.field_authority] at hauthority
      exact ⟨_, platform, htoken, hplatform,
        granted_of_lease h hkeys hseen hagent hl hid hreads.scopes
        hauthority htarget hscope htenant⟩
  | .plain issued, ⟨_, _, _, _, _, claims, hissued, hclaims⟩ =>
    obtain rfl := hverifier.plain hpayload
    refine (sees_authenticateAgentPayload (P := fun _ _ => True) (fun _ _ _ _ h => h)
      fun _ _ => sees_true _).mono ?_
    rintro agent seen ⟨_, hreads⟩ _ _ ⟨⟩
    have hscopes := hreads.scopes
    have hauthority := hreads.authority
    rw [hclaims] at hauthority hscopes
    change agent.authority = none at hauthority
    refine ⟨fun _ _ => ⟨hauthority, ?_⟩, fun d target scope htarget hauthorized => ?_⟩
    · rw [hscopes]
      exact scopeClaim_of_bootstrap hissued
    obtain ⟨platform, _, _, htenant⟩ := agent_authorized_iff.mp hauthorized
    rw [hauthority] at htenant
    rcases htenant with htenant | htenant
    · cases htenant
    · exact absurd htenant.symm htarget

end Authority

section Reading

/-- An operation that leaves the store as it is. -/
def Operation.IsQuery : Operation → Prop
  | .read _ => True
  | _ => False

theorem apply_isQuery {op : Operation} {s : Store} (h : op.IsQuery) : apply op s = s := by
  cases op with
  | read query => rfl
  | _ => exact h.elim

theorem queries_resolveTokenAgent (token : PresentedToken) (payload : Json)
    (binding : Option AgentBindingClaim) (issuer clientId subject : String) :
    (resolveTokenAgent token payload binding issuer clientId subject).Only Operation.IsQuery := by
  have hlease : ∀ now, (findActiveLease token now).Only Operation.IsQuery := by
    intro now
    cases token with
    | leased accessToken => exact ⟨trivial, fun _ => trivial⟩
    | plain payload => exact trivial
  unfold resolveTokenAgent
  rw [only_ite]
  refine ⟨fun _ => ?_, fun _ => ?_⟩
  · simp [resolveLegacyAgentToken, look, ask, Operation.IsQuery]
  · split
    · simp [resolveResourceTokenAgent, look, ask, clock, Operation.IsQuery, hlease]
    · simp [resolveBootstrapTokenAgent, look, ask, Operation.IsQuery]

theorem queries_authenticateAgentPayload (token : PresentedToken) (payload : Json)
    (options : OAuthOptions) (request : AgentTokenRequest) (clientId : String) :
    (authenticateAgentPayload token payload options request clientId).Only Operation.IsQuery := by
  simp [authenticateAgentPayload, queries_resolveTokenAgent]

theorem queries_authenticateOAuthAgent (verifier : TokenVerifier) (options : OAuthOptions)
    (request : AgentTokenRequest) :
    (authenticateOAuthAgent verifier options request).Only Operation.IsQuery := by
  unfold authenticateOAuthAgent
  split
  · exact only_done _
  split
  · exact only_fail _
  split
  · exact only_done _
  rw [only_ite]
  exact ⟨fun _ => only_map.mpr (queries_authenticateAgentPayload _ _ _ _ _), fun _ => only_done _⟩

end Reading

namespace Sample

/-- The owner of an Organization and an Agent of the user, beside Realmroot's own API. -/
def agentDirectory : Directory where
  users := [⟨"u", false⟩]
  organizations := ownerDirectory.organizations
  members := ownerDirectory.members
  resources := [{ realmrootServer with scopeRegistry := some [⟨"applications:read", .assigned⟩] }]
  identities := directory.identities
  bindings := directory.bindings

def agentStore : Store := { store with directory := agentDirectory }

/-- The owner grants a scope in the Context of the Organization; the Agent asks for a token. -/
def agentMoves : List (Move Call) :=
  Move.alone 0 (.createAgentPermission "a"
      ⟨"https://realm/api", ["applications:read"], .persistent⟩ "u" (some "o")) 17 ++
    Move.alone 1 (.createAgentAccessRequest agent ⟨"realmroot-id", ["applications:read"],
      some [realmrootAuthority "organization" "o"], none⟩) 14 ++
    Move.alone 2 (.issueTargetAccessToken "id-2" proof agent) 19

/-- A verifier of the tokens that are signed here for an issuer and an audience. -/
def tokenVerifier : TokenVerifier
  | .leased (.signed claims), issuer, audience =>
    if claims.iss = issuer ∧ claims.aud = audience then some claims.payload else none
  | .leased (.external _), _, _ => none
  | .plain payload, _, _ => some payload

theorem tokenVerifier_verifies : tokenVerifier.Verifies where
  signed {claims issuer audience payload} h := by
    change (if claims.iss = issuer ∧ claims.aud = audience then some claims.payload else none) =
      some payload at h
    split at h
    · rename_i hnamed
      exact ⟨(Option.some.inj h).symm, hnamed⟩
    · cases h
  external := rfl
  plain {payload payload' issuer audience} h := (Option.some.inj h).symm

def agentRequest (token : AccessToken) : AgentTokenRequest :=
  ⟨some (.leased token), some "proof", fun _ => .ok ()⟩

def agentOptions : OAuthOptions := ⟨"iss", "https://realm/api"⟩

/-- The token of the only lease is accepted, and its Agent may read the Organization's
Applications. -/
def acceptsAgent (pool : AccessPool) : Bool :=
  match pool.store.leases with
  | [l] =>
    match l.accessToken with
    | .signed claims =>
      decide (claims.act.iss ≠ "" ∧ claims.act.sub ≠ "") &&
        match ((authenticateOAuthAgent tokenVerifier agentOptions
          (agentRequest (.signed claims))).exec pool.store).1 with
        | .ok (some agent) =>
          decide (Authorized agentDirectory agent.principal (.organization "o") "applications:read")
        | _ => false
    | .external _ => false
  | _ => false

set_option maxRecDepth 10000 in
/-- The sample Agent is authenticated and allowed, and so it has been granted what it may do. -/
theorem agent_authorized_by_grant_o : ∃ (pool : AccessPool) (token : AccessToken)
    (agent : OAuthAgent) (seen : List Store) (platform : Organization),
    Authorized agentDirectory agent.principal (.organization "o") "applications:read" ∧
    GrantedByLease pool (.leased token) seen agent platform.id (.organization "o")
      "applications:read" := by
  have hrun : (((Pool.initial agentStore).run Call.program (fun _ _ => true) agentMoves).any
      fun pool => acceptsAgent pool &&
        decide (pool.store.directory.bindings.map (·.id)).Nodup) = true := by
    decide +kernel
  obtain ⟨pool, hpool, hcheck⟩ := (Option.any_eq_true _ _).mp hrun
  have hreach : AccessReachable pool :=
    Reachable.of_run (fun _ _ _ => trivial) (.initial ⟨rfl, rfl, rfl, rfl⟩) hpool
  rw [Bool.and_eq_true, decide_eq_true_eq] at hcheck
  obtain ⟨haccepts, hkeys⟩ := hcheck
  unfold acceptsAgent at haccepts
  split at haccepts
  swap
  · cases haccepts
  split at haccepts
  swap
  · cases haccepts
  rename_i claims _
  rw [Bool.and_eq_true, decide_eq_true_eq] at haccepts
  obtain ⟨hnamed, haccepts⟩ := haccepts
  split at haccepts
  swap
  · cases haccepts
  rename_i agent hagent
  rw [decide_eq_true_eq] at haccepts
  have hofAgent : ∀ token, (agentRequest (.signed claims)).token = some token → token.OfAgent := by
    rintro _ ⟨⟩
    exact hnamed
  have hseen := agent_authorized_by_grant hreach hkeys tokenVerifier_verifies agentOptions hofAgent
  obtain ⟨seen, hgranted, hall⟩ := hseen.exec (I := fun s => s = pool.store)
    (queries_authenticateOAuthAgent _ _ _) (fun op s hop hs => by rw [apply_isQuery hop, hs]) rfl
    (Prod.ext hagent rfl)
  have hhistory : seen ⊆ pool.history := fun s hs => by
    rw [hall s hs]
    exact List.mem_cons_self
  obtain ⟨token, platform, htoken, _, hgranted⟩ :=
    (hgranted hhistory agent rfl).2 agentDirectory _ _ (by decide) haccepts
  obtain rfl := Option.some.inj htoken
  exact ⟨pool, .signed claims, agent, seen, platform, haccepts, hgranted⟩

end Sample

end FlareAuth
