import FlareAuth.AccessReads
import FlareAuth.Concurrent.Respects
import FlareAuth.ExchangeProgram

/-!
# The choice of a federated credential

An exchange takes the first of its candidates whose pattern fits the subject and only then asks
for the audience of that one. The order in which the repository returns the candidates is
nowhere fixed.
-/

namespace FlareAuth.TokenExchange

open Concurrent Procedure Access

section Choice

variable {candidates candidates' : List ResolvedFederatedCredential} {subject audience : String}
  {organizationId : Id} {c : ResolvedFederatedCredential}

def ResolvedFederatedCredential.fits (subject : String) (c : ResolvedFederatedCredential) : Bool :=
  c.enabled && subjectMatches c.subject subject

def wrongAudience : Failure :=
  oauthError "invalid_target" "Requested audience does not match the federated credential."

def chooseCredential (candidates : List ResolvedFederatedCredential) (subject : String)
    (organizationId : Id) (audience : String) : Except Failure ResolvedFederatedCredential :=
  match candidates.find? (·.fits subject) with
  | none => .error (oauthError "invalid_grant" "No federated credential matches the subject token.")
  | some credential =>
    if credential.ownerOrganizationId = organizationId then
      if credential.audience = audience then .ok credential else .error wrongAudience
    else .error
      (oauthError "invalid_grant" "Federated credential is outside the Application Organization.")

/-- The candidates that fit leave no choice: none is for the audience, or there is only one. -/
def Unambiguous (candidates : List ResolvedFederatedCredential)
    (subject audience : String) : Prop :=
  (∀ c ∈ candidates, c.fits subject = true → c.audience ≠ audience) ∨
    ∀ c ∈ candidates, ∀ d ∈ candidates, c.fits subject = true → d.fits subject = true → c = d

theorem chooseCredential_of_find (h : candidates.find? (·.fits subject) = some c)
    (horganization : c.ownerOrganizationId = organizationId) :
    chooseCredential candidates subject organizationId audience =
      if c.audience = audience then .ok c else .error wrongAudience := by
  unfold chooseCredential
  rw [h]
  dsimp only
  rw [if_pos horganization]

/-- What the check says about a credential that it accepts. -/
theorem of_chooseCredential
    (h : chooseCredential candidates subject organizationId audience = .ok c) :
    c ∈ candidates ∧ c.fits subject = true ∧ c.audience = audience := by
  unfold chooseCredential at h
  split at h
  · cases h
  · rename_i d hfound
    split at h
    · split at h
      · rename_i haudience
        obtain rfl := Except.ok.inj h
        exact ⟨List.mem_of_find?_eq_some hfound, List.find?_some hfound, haudience⟩
      · cases h
    · cases h

theorem exists_perm_cons (hc : c ∈ candidates) : ∃ rest, (c :: rest).Perm candidates := by
  obtain ⟨before, after, rfl⟩ := List.append_of_mem hc
  exact ⟨before ++ after, List.perm_middle.symm⟩

/-- A list and its permutations find something together. -/
theorem find_eq_none_of_perm (hperm : candidates'.Perm candidates)
    (h : candidates.find? (·.fits subject) = none) : candidates'.find? (·.fits subject) = none := by
  rw [List.find?_eq_none] at h ⊢
  intro d hd
  exact h d (hperm.subset hd)

/-- Without a choice to make, the order of the candidates does not matter. -/
theorem chooseCredential_perm
    (horganization : ∀ c ∈ candidates, c.ownerOrganizationId = organizationId)
    (h : Unambiguous candidates subject audience) (hperm : candidates'.Perm candidates) :
    chooseCredential candidates' subject organizationId audience =
      chooseCredential candidates subject organizationId audience := by
  cases hfound : candidates.find? (·.fits subject) with
  | none =>
    unfold chooseCredential
    rw [hfound, find_eq_none_of_perm hperm hfound]
  | some c =>
    have hmem := List.mem_of_find?_eq_some hfound
    cases hfound' : candidates'.find? (·.fits subject) with
    | none =>
      have hnone := find_eq_none_of_perm hperm.symm hfound'
      exact absurd (hfound.symm.trans hnone) (Option.some_ne_none c)
    | some d =>
      have hmem' := hperm.subset (List.mem_of_find?_eq_some hfound')
      have hfits : c.fits subject = true := List.find?_some hfound
      have hfits' : d.fits subject = true := List.find?_some hfound'
      rw [chooseCredential_of_find hfound (horganization c hmem),
        chooseCredential_of_find hfound' (horganization d hmem')]
      rcases h with hnone | hone
      · rw [if_neg (hnone c hmem hfits), if_neg (hnone d hmem' hfits')]
      · rw [hone c hmem d hmem' hfits hfits']

/-- Without a choice to make, the check accepts if and only if some candidate would do. -/
theorem chooseCredential_accepts_iff
    (horganization : ∀ c ∈ candidates, c.ownerOrganizationId = organizationId)
    (h : Unambiguous candidates subject audience) :
    (∃ c, chooseCredential candidates subject organizationId audience = .ok c) ↔
      ∃ c ∈ candidates, c.fits subject = true ∧ c.audience = audience := by
  constructor
  · rintro ⟨c, hc⟩
    exact ⟨c, of_chooseCredential hc⟩
  · rintro ⟨c, hmem, hfits, haudience⟩
    rcases h with hnone | hone
    · exact absurd haudience (hnone c hmem hfits)
    · cases hfound : candidates.find? (·.fits subject) with
      | none => exact absurd hfits (List.find?_eq_none.mp hfound c hmem)
      | some d =>
        have hsame := hone d (List.mem_of_find?_eq_some hfound) c hmem
          (List.find?_some hfound) hfits
        refine ⟨d, ?_⟩
        rw [chooseCredential_of_find hfound (horganization d (List.mem_of_find?_eq_some hfound)),
          hsame, if_pos haudience]

/-- A check that every order answers alike has no choice to make. -/
theorem unambiguous_of_perm
    (horganization : ∀ c ∈ candidates, c.ownerOrganizationId = organizationId)
    (h : ∀ candidates', candidates'.Perm candidates →
      chooseCredential candidates' subject organizationId audience =
        chooseCredential candidates subject organizationId audience) :
    Unambiguous candidates subject audience := by
  have hfirst {d : ResolvedFederatedCredential} (hd : d ∈ candidates)
    (hfits : d.fits subject = true) :
      chooseCredential candidates subject organizationId audience =
        if d.audience = audience then .ok d else .error wrongAudience := by
    obtain ⟨rest, hperm⟩ := exists_perm_cons hd
    rw [← h _ hperm]
    exact chooseCredential_of_find (List.find?_cons_of_pos hfits) (horganization d hd)
  by_cases hnone : ∀ c ∈ candidates, c.fits subject = true → c.audience ≠ audience
  · exact .inl hnone
  · push Not at hnone
    obtain ⟨c, hc, hfits, haudience⟩ := hnone
    have hchosen := hfirst hc hfits
    rw [if_pos haudience] at hchosen
    have hsame {d : ResolvedFederatedCredential} (hd : d ∈ candidates)
      (hd' : d.fits subject = true) :
        d = c := by
      have hchosen' := (hfirst hd hd').symm.trans hchosen
      split at hchosen'
      · exact Except.ok.inj hchosen'
      · cases hchosen'
    exact .inr fun d hd e he hd' he' => (hsame hd hd').trans (hsame he he').symm

end Choice

section Orders

variable {rows : List FederatedCredential} {s s' : Site} {α : Type}

def Site.withCredentials (s : Site) (rows : List FederatedCredential) : Site :=
  { s with federatedCredentials := rows }

/-- The unique index of the Applications on their client ids. -/
def Site.Linked (s : Site) : Prop := (s.applications.map (·.oauthClientId)).Nodup

structure Reorders (rows : List FederatedCredential) (s s' : Site) : Prop where
  perm : rows.Perm s.federatedCredentials
  site : s' = s.withCredentials rows

theorem respects_ask {answer : Site → α}
    (h : ∀ s : Site, answer (s.withCredentials rows) = answer s) :
    (ask answer).Respects (Reorders rows) := by
  refine respects_query (fun s s' hR => hR) fun s s' hR => ?_
  rw [hR.site, h]

theorem respects_onAccess {p : Access α} (h : p.Reads) : (onAccess p).Respects (Reorders rows) := by
  refine respects_lift h (fun s s' hR => ?_) fun op hop s s' hR => ?_
  · rw [hR.site]
    rfl
  · obtain ⟨hperm, rfl⟩ := hR
    cases op with
    | read query => exact ⟨hperm, rfl⟩
    | generateId => exact ⟨hperm, rfl⟩
    | _ => exact absurd hop id

def OrderFree (rows : List FederatedCredential) (batch : SiteBatch α) : Prop :=
  ∀ s : Site, rows.Perm s.federatedCredentials →
    (∃ e, batch s = .error e ∧ batch (s.withCredentials rows) = .error e) ∨
      ∃ x t, batch s = .ok (x, t) ∧ t.federatedCredentials = s.federatedCredentials ∧
        batch (s.withCredentials rows) = .ok (x, t.withCredentials rows)

theorem respects_commit {op : SiteOperation} {batch : SiteBatch α}
    (hop : ∀ s, op.perform s = batch.settle s) (h : OrderFree rows batch) :
    (commit op batch).Respects (Reorders rows) := by
  refine ⟨fun s s' hR => ?_, fun s => respects_ofExcept _⟩
  obtain ⟨hperm, rfl⟩ := hR
  rw [apply_eq, apply_eq, hop, hop]
  rcases h s hperm with ⟨e, he, he'⟩ | ⟨x, t, hok, hrows, hok'⟩
  · rw [Batch.settle_of_error he, Batch.settle_of_error he']
    refine ⟨⟨hperm, rfl⟩, congrArg Procedure.ofExcept ?_⟩
    unfold Batch.outcome
    rw [he, he']
  · rw [Batch.settle_of_ok hok, Batch.settle_of_ok hok']
    refine ⟨⟨hrows ▸ hperm, rfl⟩, congrArg Procedure.ofExcept ?_⟩
    unfold Batch.outcome
    rw [hok, hok']

theorem hasCredential_withCredentials (hperm : rows.Perm s.federatedCredentials) (id : Id) :
    (s.withCredentials rows).hasCredential id = s.hasCredential id := by
  unfold Site.hasCredential Site.withCredentials
  exact hperm.any_eq

/-- The insert of a token asks whether its credential is there, and for a clash of keys. -/
theorem orderFree_insert {refused clash : Site → Bool} {insert : Site → Site} {e e' : Failure}
    (hrefused : ∀ s : Site, rows.Perm s.federatedCredentials →
      refused (s.withCredentials rows) = refused s)
    (hclash : ∀ s : Site, clash (s.withCredentials rows) = clash s)
    (hinsert : ∀ s : Site, insert (s.withCredentials rows) = (insert s).withCredentials rows)
    (hrows : ∀ s : Site, (insert s).federatedCredentials = s.federatedCredentials) :
    OrderFree rows (fun s => if refused s then .error e else if clash s then .error e'
      else .ok ((), insert s) : SiteBatch Unit) := by
  intro s hperm
  dsimp only
  rw [hrefused s hperm, hclash s, hinsert s]
  cases refused s with
  | true => exact .inl ⟨e, rfl, rfl⟩
  | false =>
    cases clash s with
    | true => exact .inl ⟨e', rfl, rfl⟩
    | false => exact .inr ⟨(), insert s, rfl, hrows s, rfl⟩

theorem orderFree_insertAccessToken (input : AccessTokenRow) :
    OrderFree rows (Repository.insertAccessToken input) := by
  refine orderFree_insert (fun s hperm => ?_) (fun _ => rfl) (fun _ => rfl) fun _ => rfl
  rw [hasCredential_withCredentials hperm]

theorem orderFree_insertRefreshToken (input : RefreshTokenRow) :
    OrderFree rows (Repository.insertRefreshToken input) := by
  refine orderFree_insert (fun s hperm => ?_) (fun _ => rfl) (fun _ => rfl) fun _ => rfl
  rw [hasCredential_withCredentials hperm]

theorem orderFree_revokeRefreshTokens (selected : RefreshTokenRow → Bool) (now : ℕ) :
    OrderFree rows (Repository.revokeRefreshTokens selected now) :=
  fun _ _ => .inr ⟨(), _, rfl, rfl, rfl⟩

end Orders

section Exchanges

variable {rows : List FederatedCredential} {s s' : Site} {input : TokenExchangeRequest}
  {client : ClientCredentials} {issuer : String} {oauthClient : OAuthClient}
  {application : Application}

def checkCredential (clientId issuer subject : String) (organizationId : Id) (audience : String) :
    Exchange ResolvedFederatedCredential := do
  let credential ← resolveCredential clientId issuer subject
  require (credential.ownerOrganizationId = organizationId)
    (oauthError "invalid_grant" "Federated credential is outside the Application Organization.")
  require (credential.audience = audience) wrongAudience
  return credential

/-- The check answers what is chosen from the candidates of the site. -/
theorem exec_checkCredential (clientId issuer subject : String) (organizationId : Id)
    (audience : String) (s : Site) :
    (checkCredential clientId issuer subject organizationId audience).exec s =
      (chooseCredential (s.findFederatedCredentials clientId issuer) subject
        organizationId audience,
        s) := by
  have hresolve : (checkCredential clientId issuer subject organizationId audience).exec s =
      (orThrow ((s.findFederatedCredentials clientId issuer).find? (·.fits subject))
        (oauthError "invalid_grant" "No federated credential matches the subject token.") >>=
        fun credential => do
          require (credential.ownerOrganizationId = organizationId) (oauthError "invalid_grant"
            "Federated credential is outside the Application Organization.")
          require (credential.audience = audience) wrongAudience
          return credential : Exchange ResolvedFederatedCredential).exec s := rfl
  rw [hresolve]
  unfold chooseCredential
  cases (s.findFederatedCredentials clientId issuer).find? (·.fits subject) with
  | none => rfl
  | some credential =>
    rw [orThrow_some, exec_bind_ok _ (exec_done credential s)]
    dsimp only
    by_cases horganization : credential.ownerOrganizationId = organizationId
    · rw [if_pos horganization, require_pos horganization, exec_bind_ok _ (exec_done () s)]
      by_cases haudience : credential.audience = audience
      · rw [if_pos haudience, require_pos haudience]
        rfl
      · rw [if_neg haudience, require_neg haudience]
        rfl
    · rw [if_neg horganization, require_neg horganization]
      rfl

def trustCredential (input : TokenExchangeRequest) (oauthClient : OAuthClient)
    (application : Application) (assertion : Assertion) (subject : String)
    (credential : ResolvedFederatedCredential) :
    Exchange (ResolvedFederatedCredential × String × List String × ℕ) := do
  requireEligibleAudience credential.audience credential.ownerOrganizationId
  let scopes ← resolveApplicationTokenScopes application input.audience input.scope
  require (!scopes.contains "offline_access" ∨
      oauthClient.grantTypes.contains refreshTokenGrantType)
    (oauthError "invalid_scope" "Client is not allowed to issue refresh tokens.")
  let exp ← verifySubjectToken input.subjectToken assertion credential
  return (credential, subject, scopes, exp)

theorem resolveExchange_eq {assertion : Assertion} {issuer subject : String}
    (hassertion : input.subjectToken.assertion = .ok assertion)
    (hissuer : assertion.issuer = some issuer) (hsubject : assertion.subject = some subject) :
    resolveExchange input oauthClient application =
      checkCredential oauthClient.clientId issuer subject application.ownerOrganizationId
        input.audience >>= trustCredential input oauthClient application assertion subject := by
  unfold resolveExchange checkCredential trustCredential
  have hdecoded {β : Type} (f : Assertion → Exchange β) :
      Procedure.ofExcept (.ok assertion) >>= f = f assertion := rfl
  rw [hassertion, hdecoded]
  dsimp only
  rw [hissuer, hsubject]
  simp only [orThrow_some, done_bind, bind_assoc, pure_bind]
  rfl

theorem respects_authorizeExchange (input : TokenExchangeRequest) (client : ClientCredentials) :
    (authorizeExchange input client).Respects (Reorders rows) := by
  unfold authorizeExchange authenticateApplicationClient
  refine (respects_require _ _).bind fun _ => Respects.bind ?_ fun _ => ?_
  · refine (respects_orThrow _ _).bind fun _ => (respects_ask fun _ => rfl).bind fun _ =>
      (respects_ask fun _ => rfl).bind fun _ => (respects_orThrow _ _).bind fun _ =>
      (respects_orThrow _ _).bind fun _ => (respects_onAccess (by simp)).bind fun _ =>
      (respects_require _ _).bind fun _ => (respects_require _ _).bind fun _ => trivial
  · exact (respects_require _ _).bind fun _ => (respects_require _ _).bind fun _ => trivial

theorem respects_trustCredential (assertion : Assertion) (subject : String)
    (credential : ResolvedFederatedCredential) :
    (trustCredential input oauthClient application assertion subject credential).Respects
      (Reorders rows) := by
  have hscopes {resource : ApiResource} {now : ℕ} : (applicationEffectiveResourceScopes
      application.id application.ownerOrganizationId resource now).Reads := by
    unfold applicationEffectiveResourceScopes
    simp [listActiveApplicationScopeEntitlements]
  unfold trustCredential requireEligibleAudience isEligibleAudience resolveApplicationTokenScopes
    resolveApplicationTokenScopesForResource verifySubjectToken
  simp only [bind_assoc, pure_bind]
  refine (respects_onAccess (by simp)).bind fun _ => (respects_require _ _).bind fun _ =>
    (respects_onAccess (by simp)).bind fun _ => (respects_orThrow _ _).bind fun _ =>
    (respects_ofExcept _).bind fun _ => (respects_onAccess (by simp)).bind fun _ =>
    (respects_onAccess hscopes).bind fun _ => (respects_require _ _).bind fun _ =>
    (respects_onAccess (by simp)).bind fun _ => (respects_orThrow _ _).bind fun _ =>
    (respects_require _ _).bind fun _ => (respects_require _ _).bind fun _ =>
    (respects_require _ _).bind fun _ => (respects_ofExcept _).bind fun _ => trivial

theorem respects_issueRefreshToken (familyId : Id) (grant : TokenGrant) :
    (issueRefreshToken familyId grant).Respects (Reorders rows) := by
  unfold issueRefreshToken prepareRefreshToken storeRefreshToken
  simp only [bind_assoc, pure_bind]
  refine (respects_onAccess (by simp)).bind fun _ => (respects_onAccess (by simp)).bind fun _ =>
    (respects_onAccess (by simp)).bind fun _ =>
    (respects_commit (fun _ => rfl) (orderFree_insertRefreshToken _)).bind fun _ =>
    (respects_ask fun _ => rfl).bind fun revoked => ?_
  refine Respects.bind ?_ fun _ => (respects_require _ _).bind fun _ => trivial
  cases revoked with
  | false => exact trivial
  | true =>
    exact (respects_onAccess (by simp)).bind fun _ =>
      (respects_commit (fun _ => rfl) (orderFree_revokeRefreshTokens _ _)).bind fun _ => trivial

/-- The candidates of the site with its credentials in another order, in that order. -/
theorem perm_findFederatedCredentials (hperm : rows.Perm s.federatedCredentials)
    (clientId issuer : String) :
    ((s.withCredentials rows).findFederatedCredentials clientId issuer).Perm
      (s.findFederatedCredentials clientId issuer) := by
  unfold Site.findFederatedCredentials Site.resolvedCredentials
  exact (hperm.filterMap s.resolve).filter _

/-- The client and the Application of an exchange are those of the id that it presents. -/
theorem of_authorizeExchange {t : Site}
    (h : (authorizeExchange input client).exec s = (.ok (oauthClient, application), t)) :
    s.findClient client.clientId = some oauthClient ∧
      s.findByClientId client.clientId = some application := by
  unfold authorizeExchange at h
  obtain ⟨-, h⟩ := exec_require_bind h
  obtain ⟨⟨c, a⟩, u, hauthenticated, h⟩ := exec_bind_inv h
  obtain ⟨-, h⟩ := exec_require_bind h
  obtain ⟨-, h⟩ := exec_require_bind h
  obtain ⟨hclient, -⟩ := Prod.mk.inj h
  obtain ⟨rfl, rfl⟩ := Prod.mk.inj (Except.ok.inj hclient)
  unfold authenticateApplicationClient at hauthenticated
  obtain ⟨secret, -, h⟩ := exec_orThrow_bind hauthenticated
  simp only [ask, exec_query_bind] at h
  obtain ⟨found, hfound, h⟩ := exec_orThrow_bind h
  obtain ⟨found', hfound', h⟩ := exec_orThrow_bind h
  obtain ⟨organization, v, -, h⟩ := exec_bind_inv h
  obtain ⟨-, h⟩ := exec_require_bind h
  obtain ⟨-, h⟩ := exec_require_bind h
  obtain ⟨hpair, -⟩ := Prod.mk.inj h
  obtain ⟨rfl, rfl⟩ := Prod.mk.inj (Except.ok.inj hpair)
  exact ⟨(Option.filter_eq_some_iff.mp hfound).1, (Option.filter_eq_some_iff.mp hfound').1⟩

theorem application_of_resolve {row : FederatedCredential} {c : ResolvedFederatedCredential}
    (h : s.resolve row = some c) :
    ∃ a ∈ s.applications, a.ownerOrganizationId = c.ownerOrganizationId ∧
      c.applicationClientId = a.oauthClientId := by
  unfold Site.resolve at h
  obtain ⟨a, ha, h⟩ := Option.bind_eq_some_iff.mp h
  obtain ⟨r, -, h⟩ := Option.bind_eq_some_iff.mp h
  obtain ⟨-, -, h⟩ := Option.bind_eq_some_iff.mp h
  obtain rfl := Option.some.inj h
  exact ⟨a, List.mem_of_find?_eq_some ha, rfl, rfl⟩

/-- The candidates of a client are of the organization of its Application. -/
theorem organization_of_candidate {issuer : String} {c : ResolvedFederatedCredential}
    (hlinked : s.Linked) (hclient : s.findClient client.clientId = some oauthClient)
    (happlication : s.findByClientId client.clientId = some application)
    (hc : c ∈ s.findFederatedCredentials oauthClient.clientId issuer) :
    c.ownerOrganizationId = application.ownerOrganizationId := by
  obtain ⟨hresolved, hmatch⟩ := List.mem_filter.mp hc
  obtain ⟨row, -, hrow⟩ := List.mem_filterMap.mp hresolved
  obtain ⟨a, ha, horganization, hid⟩ := application_of_resolve hrow
  simp only [decide_eq_true_eq] at hmatch
  have hfound : s.applications.find? (·.oauthClientId = oauthClient.clientId) =
      some application := by
    unfold Site.findByClientId at happlication
    rwa [hclient] at happlication
  have hsame : a.oauthClientId = application.oauthClientId := by
    have happlicationId : application.oauthClientId = oauthClient.clientId := by
      simpa using List.find?_some hfound
    rw [← hid, hmatch.1, happlicationId]
  have heq : a = application :=
    List.inj_on_of_nodup_map hlinked ha (List.mem_of_find?_eq_some hfound) hsame
  rw [← horganization, heq]

/-- An exchange whose candidates leave no choice does not depend on the order of the rows. -/
theorem alike_exchange {signer : String} {subject : String} {assertion : Assertion}
    (hauthorized : (authorizeExchange input client).exec s = (.ok (oauthClient, application), s))
    (hassertion : input.subjectToken.assertion = .ok assertion)
    (hissuer : assertion.issuer = some issuer) (hsubject : assertion.subject = some subject)
    (horganization : ∀ c ∈ s.findFederatedCredentials oauthClient.clientId issuer,
      c.ownerOrganizationId = application.ownerOrganizationId)
    (h : Unambiguous (s.findFederatedCredentials oauthClient.clientId issuer) subject
      input.audience)
    (hperm : rows.Perm s.federatedCredentials) :
    (exchangeFederatedToken input client signer).Alike (Reorders rows) s
      (s.withCredentials rows) := by
  have hR : Reorders rows s (s.withCredentials rows) := ⟨hperm, rfl⟩
  unfold exchangeFederatedToken
  refine ((respects_authorizeExchange input client).alike hR).bind
    fun ⟨oauthClient', application'⟩ t t' ht ht' hRt => ?_
  obtain ⟨hclient, rfl⟩ := Prod.mk.inj (hauthorized.symm.trans ht)
  obtain ⟨rfl, rfl⟩ := Prod.mk.inj (Except.ok.inj hclient)
  have hsite := hRt.site
  subst hsite
  refine Alike.require_bind hR ?_
  have hchosen : (checkCredential oauthClient.clientId issuer subject
      application.ownerOrganizationId input.audience).Alike (Reorders rows) s
      (s.withCredentials rows) := by
    constructor
    · rw [exec_checkCredential, exec_checkCredential]
      exact chooseCredential_perm horganization h (perm_findFederatedCredentials hperm _ _)
    · rw [exec_checkCredential, exec_checkCredential]
      exact hR
  rw [resolveExchange_eq hassertion hissuer hsubject]
  refine (hchosen.bind fun credential v v' _ _ hRv =>
    (respects_trustCredential assertion subject credential).alike hRv).bind
    fun ⟨credential, subject, scopes, exp⟩ v v' _ _ hRv => Respects.alike ?_ hRv
  refine (respects_onAccess (by simp)).bind fun _ => (respects_onAccess (by simp)).bind fun _ =>
    (respects_onAccess (by simp)).bind fun _ =>
    (respects_commit (fun _ => rfl) (orderFree_insertAccessToken _)).bind fun _ => ?_
  dsimp only
  split
  · exact (respects_onAccess (by simp)).bind fun familyId =>
      ((respects_issueRefreshToken familyId _).map some).bind fun _ => trivial
  · exact trivial

/-- What an exchange should owe to its credentials: the choice, the outcome and what is stored
are the same for every order of the rows, and any candidate that would do is enough. -/
structure OrderIndependent (s : Site) (input : TokenExchangeRequest) (client : ClientCredentials)
    (signer clientId issuer subject : String) (organizationId : Id) : Prop where
  choice : ∀ candidates, candidates.Perm (s.findFederatedCredentials clientId issuer) →
    chooseCredential candidates subject organizationId input.audience =
      chooseCredential (s.findFederatedCredentials clientId issuer) subject organizationId
        input.audience
  outcome : ∀ rows, rows.Perm s.federatedCredentials →
    (exchangeFederatedToken input client signer).Alike (Reorders rows) s (s.withCredentials rows)
  accepted : (∃ c, ((checkCredential clientId issuer subject organizationId input.audience).exec
      s).1 = .ok c) ↔
    ∃ c ∈ s.findFederatedCredentials clientId issuer, c.fits subject = true ∧
      c.audience = input.audience

/-- An exchange is independent of the order of the rows exactly when its candidates leave no
choice. -/
theorem orderIndependent_iff {signer issuer subject : String} {assertion : Assertion}
    (hlinked : s.Linked)
    (hauthorized : (authorizeExchange input client).exec s = (.ok (oauthClient, application), s))
    (hassertion : input.subjectToken.assertion = .ok assertion)
    (hissuer : assertion.issuer = some issuer) (hsubject : assertion.subject = some subject) :
    OrderIndependent s input client signer oauthClient.clientId issuer subject
        application.ownerOrganizationId ↔
      Unambiguous (s.findFederatedCredentials oauthClient.clientId issuer) subject
        input.audience := by
  obtain ⟨hclient, happlication⟩ := of_authorizeExchange hauthorized
  have horganization (c) (hc : c ∈ s.findFederatedCredentials oauthClient.clientId issuer) :
      c.ownerOrganizationId = application.ownerOrganizationId :=
    organization_of_candidate hlinked hclient happlication hc
  constructor
  · intro h
    exact unambiguous_of_perm horganization h.choice
  · intro h
    constructor
    · intro candidates hperm
      exact chooseCredential_perm horganization h hperm
    · intro rows hperm
      exact alike_exchange hauthorized hassertion hissuer hsubject horganization h hperm
    · rw [exec_checkCredential]
      exact chooseCredential_accepts_iff horganization h

end Exchanges

namespace Sample

theorem site_linked : site.Linked := by
  unfold Site.Linked
  decide

theorem orderIndependent_site :
    OrderIndependent site exchange credentials "issuer" client.clientId "ci" "job"
      application.ownerOrganizationId := by
  have hsingle : ∃ d, site.findFederatedCredentials client.clientId "ci" = [d] := ⟨_, rfl⟩
  obtain ⟨d, hd⟩ := hsingle
  refine (orderIndependent_iff site_linked (by rfl) (by rfl) (by rfl) (by rfl)).mpr (.inr ?_)
  intro c hc c' hc' _ _
  rw [hd] at hc hc'
  exact (List.mem_singleton.mp hc).trans (List.mem_singleton.mp hc').symm

def drafts : ApiResource :=
  { FlareAuth.Sample.notes with
    id := "drafts", identifier := "drafts", resourceUrl := "https://drafts" }

def anyJob : FederatedCredential :=
  { credential with id := "any", subject := "jo*", audienceResourceId := "drafts" }

/-- Two credentials for the jobs of the issuer, one for each of two resources. -/
def overlapping : Site :=
  { site with
    access := { site.access with
      directory := { directory with resources := [FlareAuth.Sample.notes, drafts] } }
    federatedCredentials := [anyJob, credential] }

theorem overlapping_linked : overlapping.Linked := site_linked

/-- The credential of the job is refused behind the pattern, and taken before it. -/
theorem overlapping_patterns_depend_on_order :
    overlapping.Linked ∧
      ((exchangeFederatedToken exchange credentials "issuer").exec overlapping).1.isOk = false ∧
      ((exchangeFederatedToken exchange credentials "issuer").exec
        (overlapping.withCredentials [credential, anyJob])).1.isOk = true ∧
      ¬OrderIndependent overlapping exchange credentials "issuer" client.clientId "ci" "job"
        application.ownerOrganizationId := by
  have hrefused :
      ((exchangeFederatedToken exchange credentials "issuer").exec overlapping).1.isOk = false := by
    decide +kernel
  have haccepted : ((exchangeFederatedToken exchange credentials "issuer").exec
      (overlapping.withCredentials [credential, anyJob])).1.isOk = true := by
    decide +kernel
  refine ⟨overlapping_linked, hrefused, haccepted, fun h => ?_⟩
  have hsame := (h.outcome [credential, anyJob] (List.Perm.swap ..)).result
  rw [hsame, hrefused] at haccepted
  cases haccepted

end Sample

end FlareAuth.TokenExchange
