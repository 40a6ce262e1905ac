import FlareAuth.Concurrent.Trace
import FlareAuth.ExchangeContract

/-!
# What a refresh rests on

By the time a refresh rotates it has found the presented token, the Application with the scopes
granted to it, and the credential of the token, which is the last thing it reads of the exchange.
-/

namespace FlareAuth.TokenExchange

open Concurrent Procedure Access

def SiteOperation.isRead : SiteOperation → Bool
  | .read => true
  | _ => false

def SiteOperation.Aside : SiteOperation → Prop
  | .access _ => True
  | _ => False

theorem SiteOperation.Aside.quiet {op : SiteOperation} (h : op.Aside) : op.Quiet := by
  cases op <;> first | exact trivial | exact h.elim

theorem SiteOperation.Aside.isRead {op : SiteOperation} (h : op.Aside) : op.isRead = false := by
  cases op <;> first | rfl | exact h.elim

def lastSeen (log : ExchangeLog) : Option Site := log.lastBefore SiteOperation.isRead

@[simp] theorem lastSeen_cons_read (s : Site) (log : ExchangeLog) :
    lastSeen (⟨.read, s⟩ :: log) = some s := Log.lastBefore_cons_of_pos rfl s log

theorem lastSeen_append {new : ExchangeLog} (h : ∀ d ∈ new, d.operation.Aside)
    (log : ExchangeLog) : lastSeen (new ++ log) = lastSeen log :=
  Log.lastBefore_append (fun d hd => (h d hd).isRead) log

/-- The words of the scope parameter, which the stored scopes replace when it is absent. -/
def TokenRefreshRequest.requested (input : TokenRefreshRequest) (row : RefreshTokenRow) :
    List String :=
  Text.split (input.scope.getD (Text.join row.grant.scopes))

def heldScopes (s : Store) (application : Application) (resource : ApiResource) (now : ℕ) :
    List String :=
  resource.currentRegistryScopes (resource.automaticScopes ++
    (s.listActiveApplicationScopeEntitlements application.id resource.id now).map (·.scope))

/-- The Application that a call has found holds a scope at the Resource Server it has found. -/
def GrantedBy (log : ExchangeLog) (application : Application) (audience scope : String) : Prop :=
  scope ∈ application.oidcScopes ∨
    ∃ d ∈ log, ∃ e ∈ log, ∃ f ∈ log, ∃ resource,
      d.before.access.directory.findResourceByResourceUrl audience = some resource ∧
      scope ∈ heldScopes e.before.access application resource f.before.access.now

def Grants (log : ExchangeLog) (clientId audience scope : String) : Prop :=
  ∃ application, (∃ d ∈ log, d.before.findByClientId clientId = some application) ∧
    GrantedBy log application audience scope

theorem GrantedBy.mono {log log' : ExchangeLog} {application : Application}
    {audience scope : String} (h : GrantedBy log application audience scope) (hlog : log ⊆ log') :
    GrantedBy log' application audience scope := by
  rcases h with h | ⟨d, hd, e, he, f, hf, resource, hresource, hscope⟩
  · exact .inl h
  · exact .inr ⟨d, hlog hd, e, hlog he, f, hlog hf, resource, hresource, hscope⟩

def Site.HasEligibleCredential (s : Site) (grant : TokenGrant) : Prop :=
  ∃ c, s.findFederatedCredentialForClient grant.credentialId grant.clientId = some c ∧
    c.enabled = true ∧ c.audience = grant.audience ∧
    grant.claims.field realmrootOrganizationClaim = some (.string c.ownerOrganizationId)

structure Renews (log : ExchangeLog) (input : TokenRefreshRequest) (client : ClientCredentials)
    (parent : RefreshTokenRow) (r : Rotation) : Prop where
  presented : ∃ d ∈ log, d.before.findRefreshTokenByHash (sha256 input.refreshToken) = some parent
  client : parent.grant.clientId = client.clientId
  parentId : r.refreshToken.parentId = some parent.id
  familyId : r.refreshToken.familyId = parent.familyId
  grant : r.refreshToken.grant = { parent.grant with scopes := r.refreshToken.grant.scopes }
  accessToken : r.accessToken.grant = r.refreshToken.grant
  payload : ∃ i : AccessTokenInput, r.accessToken.tokenHash = sha256 i.payload ∧
    i.subject = parent.grant.subject ∧ i.audience = parent.grant.audience ∧
    i.scopes = r.refreshToken.grant.scopes
  requested : ∀ w ∈ r.refreshToken.grant.scopes, w ∈ input.requested parent
  granted : ∀ w ∈ r.refreshToken.grant.scopes,
    Grants log parent.grant.clientId parent.grant.audience w
  credential : ∃ s, lastSeen log = some s ∧ s.HasEligibleCredential parent.grant

section Parts

theorem aside_onAccess {α : Type} (p : Access α) : (onAccess p).Only SiteOperation.Aside :=
  only_lift p.only_true

theorem leaves_ask {α : Type} (answer : Site → α) :
    (ask answer).Leaves fun a log => ∃ s, a = answer s ∧ log = [⟨.read, s⟩] :=
  leaves_query _ _

theorem leaves_look {α : Type} (answer : Directory → α) :
    (onAccess (look answer)).Leaves fun a log =>
      ∃ d ∈ log, a = answer d.before.access.directory := fun _ => ⟨_, List.mem_cons_self, rfl⟩

theorem leaves_clock :
    (onAccess clock).Leaves fun now log => ∃ d ∈ log, now = d.before.access.now :=
  fun _ => ⟨_, List.mem_cons_self, rfl⟩

theorem leaves_applicationEffectiveResourceScopes (application : Application)
    (resource : ApiResource) (now : ℕ) :
    (onAccess (applicationEffectiveResourceScopes application.id application.ownerOrganizationId
      resource now)).Leaves fun scopes log => ∀ w ∈ scopes, ∃ d ∈ log,
        w ∈ heldScopes d.before.access application resource now := by
  unfold applicationEffectiveResourceScopes
  split
  · exact fun s w hw => ⟨_, List.mem_cons_self, hw⟩
  · exact fun w hw => nomatch hw

theorem mem_normalizeScopes {scope : Option String} {allowed scopes : List String}
    (h : normalizeScopes scope allowed = .ok scopes) {w : String} (hw : w ∈ scopes) :
    w ∈ Text.split (scope.getD "") := by
  unfold normalizeScopes at h
  dsimp only at h
  split at h
  · cases h
  · obtain rfl := Except.ok.inj h
    exact Text.mem_unique.mp hw

/-- The scopes of a token are words of the request that the Application holds. -/
theorem leaves_resolveApplicationTokenScopes (application : Application) (audience : String)
    (scope : Option String) :
    (resolveApplicationTokenScopes application audience scope).Leaves fun scopes log =>
      ∀ w ∈ scopes, w ∈ Text.split (scope.getD "") ∧ GrantedBy log application audience w := by
  refine (leaves_look _).bind fun found first hfound => ?_
  refine (leaves_orThrow _ _).bind fun resource none hresource => ?_
  obtain ⟨hresource, rfl⟩ := hresource
  refine (leaves_ofExcept _).bind fun requested none hrequested => ?_
  obtain ⟨hrequested, rfl⟩ := hrequested
  refine leaves_clock.bind fun now second hnow => ?_
  refine (leaves_applicationEffectiveResourceScopes application resource now).bind
    fun effective third heffective => ?_
  intro w hw
  obtain ⟨hmem, hheld⟩ := List.mem_filter.mp hw
  refine ⟨mem_normalizeScopes hrequested hmem, ?_⟩
  rw [Bool.or_eq_true, List.contains_iff_mem, List.contains_iff_mem] at hheld
  refine hheld.imp id fun hheld => ?_
  obtain ⟨d, hd, hd'⟩ := hfound
  obtain ⟨f, hf, rfl⟩ := hnow
  obtain ⟨e, he, hw⟩ := heffective w hheld
  refine ⟨d, by simp [hd], e, by simp [he], f, by simp [hf], resource, ?_, hw⟩
  rw [← hd']
  exact (Option.filter_eq_some_iff.mp hresource).1

theorem Site.clientId_of_findClient {s : Site} {clientId : String} {client : OAuthClient}
    (h : s.findClient clientId = some client) : client.clientId = clientId := by
  simpa using List.find?_some h

theorem leaves_authenticateApplicationClient (c : ClientCredentials) :
    (authenticateApplicationClient c).Leaves fun found _ => found.1.clientId = c.clientId := by
  refine (leaves_orThrow _ _).bind fun secret _ _ => ?_
  refine (leaves_ask _).bind fun found _ hfound => ?_
  refine (leaves_true _).bind fun _ _ _ => (leaves_orThrow _ _).bind fun client _ hclient => ?_
  obtain ⟨s, rfl, -⟩ := hfound
  refine ((leaves_true _).bind fun application _ _ => ?_ : Leaves _ _)
  refine (leaves_true _).bind fun _ _ _ => (leaves_true _).bind fun _ _ _ => ?_
  refine (leaves_true _).bind fun _ _ _ => ?_
  exact Site.clientId_of_findClient (Option.filter_eq_some_iff.mp hclient.1).1

/-- The Application and the token of a refresh, both of the client that presents it. -/
theorem leaves_findPresentedToken (input : TokenRefreshRequest) (client : ClientCredentials) :
    (findPresentedToken input client).Leaves fun found log =>
      found.1.clientId = client.clientId ∧ found.2.2.1.grant.clientId = client.clientId ∧
      (∃ d ∈ log, d.before.findByClientId client.clientId = some found.2.1) ∧
      ∃ d ∈ log, d.before.findRefreshTokenByHash (sha256 input.refreshToken) =
        some found.2.2.1 := by
  refine (leaves_require _ _).bind fun _ _ _ => ?_
  refine (leaves_authenticateApplicationClient client).bind fun ⟨oauthClient, _⟩ _ hclient => ?_
  refine (leaves_ask _).bind fun found _ hfound => ?_
  refine (leaves_orThrow _ _).bind fun application _ happlication => ?_
  refine (leaves_require _ _).bind fun _ _ _ => ?_
  refine (leaves_ask _).bind fun token _ htoken => ?_
  refine (leaves_orThrow _ _).bind fun row _ hrow => ?_
  refine leaves_clock.bind fun now _ _ => ?_
  obtain ⟨s, rfl, rfl⟩ := hfound
  obtain ⟨t, rfl, rfl⟩ := htoken
  obtain ⟨happlication, -⟩ := happlication
  obtain ⟨hrow, hmine⟩ := Option.filter_eq_some_iff.mp hrow.1
  have hclient : oauthClient.clientId = client.clientId := hclient
  refine ⟨hclient, ?_, ⟨⟨.read, s⟩, by simp, ?_⟩, ⟨.read, t⟩, by simp, hrow⟩
  · exact (by simpa using hmine : row.grant.clientId = oauthClient.clientId).trans hclient
  · rw [← hclient]
    exact (Option.filter_eq_some_iff.mp happlication).1

/-- A refresh goes on with an eligible credential, and nothing else of the exchange is read after
it. -/
theorem leaves_eligibleCredential (row : RefreshTokenRow) (clientId : String)
    (hrow : row.grant.clientId = clientId) :
    (eligibleCredential row clientId).Leaves fun eligible log => eligible = true →
      ∃ s later, log = later ++ [⟨.read, s⟩] ∧ (∀ d ∈ later, d.operation.Aside) ∧
        s.HasEligibleCredential row.grant := by
  refine (leaves_ask _).bind fun found first hfound => ?_
  refine (leaves_orThrow _ _).bind fun credential second hcredential => ?_
  obtain ⟨s, rfl, rfl⟩ := hfound
  obtain ⟨hcredential, rfl⟩ := hcredential
  obtain ⟨hfound, henabled⟩ := Option.filter_eq_some_iff.mp hcredential
  split
  · exact fun h => absurd h Bool.false_ne_true
  rename_i hsame
  push Not at hsame
  have haside : (isEligibleAudience credential.audience credential.ownerOrganizationId).Only
      SiteOperation.Aside := by simp [isEligibleAudience, aside_onAccess]
  refine haside.leaves.mono fun eligible later hlater _ => ⟨s, later, by simp, hlater.2, ?_⟩
  exact ⟨credential, hrow ▸ hfound, henabled, hsame.1, hsame.2⟩

theorem leaves_prepareRefreshToken (familyId : Id) (parentId : Option Id) (grant : TokenGrant) :
    (prepareRefreshToken familyId parentId grant).Leaves fun prepared _ =>
      prepared.2.familyId = familyId ∧ prepared.2.parentId = parentId ∧
        prepared.2.grant = grant := by
  refine (leaves_true _).bind fun random _ _ => (leaves_true _).bind fun now _ _ => ?_
  exact (leaves_true _).bind fun id _ _ => ⟨rfl, rfl, rfl⟩

/-- The credential of an exchange is one that accepts the subject, and the scopes are words. -/
theorem leaves_resolveExchange (input : TokenExchangeRequest) (client : OAuthClient)
    (application : Application) :
    (resolveExchange input client application).Leaves fun trust log =>
      (∃ d ∈ log, trust.1 ∈ d.before.resolvedCredentials) ∧
      subjectMatches trust.1.subject trust.2.1 = true ∧ ∀ w ∈ trust.2.2.1, Text.IsWord w := by
  refine (leaves_true _).bind fun assertion _ _ => (leaves_true _).bind fun issuer _ _ => ?_
  refine (leaves_true _).bind fun subject _ _ => ?_
  have hcredential : (resolveCredential client.clientId issuer subject).Leaves fun c log =>
      (∃ d ∈ log, c ∈ d.before.resolvedCredentials) ∧ subjectMatches c.subject subject = true := by
    refine (leaves_ask _).bind fun candidates _ hcandidates => ?_
    refine (leaves_orThrow _ _).mono fun c _ hc => ?_
    obtain ⟨s, rfl, rfl⟩ := hcandidates
    have hmatches := List.find?_some hc.1
    rw [Bool.and_eq_true] at hmatches
    refine ⟨⟨⟨.read, s⟩, by simp, ?_⟩, hmatches.2⟩
    exact (List.mem_filter.mp (List.mem_of_find?_eq_some hc.1)).1
  refine hcredential.bind fun credential first ⟨hfound, hmatches⟩ => ?_
  refine (leaves_true _).bind fun _ _ _ => (leaves_true _).bind fun _ _ _ => ?_
  refine (leaves_true _).bind fun _ _ _ => ?_
  refine (leaves_resolveApplicationTokenScopes _ _ _).bind fun scopes _ hscopes => ?_
  refine (leaves_true _).bind fun _ _ _ => (leaves_true _).bind fun exp _ _ => ?_
  obtain ⟨d, hd, hmem⟩ := hfound
  exact ⟨⟨d, by simp [hd], hmem⟩, hmatches, fun w hw => Text.isWord_of_mem_split (hscopes w hw).1⟩

end Parts

structure Originates (log : ExchangeLog) (row : RefreshTokenRow) : Prop where
  parentId : row.parentId = none
  words : ∀ w ∈ row.grant.scopes, Text.IsWord w
  credential : ∃ d ∈ log, ∃ c ∈ d.before.resolvedCredentials, c.id = row.grant.credentialId ∧
    c.issuer = row.grant.subjectTokenIssuer ∧ subjectMatches c.subject row.grant.subject = true

section Program

def Renewing (call : Call) (log : ExchangeLog) (_ : Site) : SiteOperation → Prop
  | .insertRefreshToken row => Originates log row
  | .rotateRefreshToken r => ∃ input client issuer parent,
      call = .refreshToken input client issuer ∧ Renews log input client parent r
  | _ => True

variable {α β : Type} {call : Call} {log : ExchangeLog}

theorem renewing_of_quiet {s : Site} {op : SiteOperation} (h : op.Quiet) :
    Renewing call log s op := by
  cases op <;> first | exact trivial | exact h.elim

abbrev Keeps (call : Call) (p : Exchange α) (log : ExchangeLog) : Prop :=
  p.Obeys (Renewing call) (fun _ _ => True) log

theorem keeps_quiet {p : Exchange α} (h : p.Quiet) : Keeps call p log :=
  h.obeys (fun _ _ _ => renewing_of_quiet) (fun _ _ _ _ => trivial) fun _ _ _ => trivial

theorem keeps_quiet_bind {p : Exchange α} {P : α → ExchangeLog → Prop} {f : α → Exchange β}
    (hp : p.Quiet) (h : p.Leaves P) (hf : ∀ new a, P a new → Keeps call (f a) (new ++ log)) :
    Keeps call (p >>= f) log :=
  h.obeys_bind hp (fun _ _ _ => renewing_of_quiet) (fun new a ha _ => hf new a ha)
    fun _ _ _ => trivial

theorem keeps_aside_bind {p : Exchange α} {P : α → ExchangeLog → Prop} {f : α → Exchange β}
    (hp : p.Only SiteOperation.Aside) (h : p.Leaves P)
    (hf : ∀ new a, P a new → (∀ d ∈ new, d.operation.Aside) → Keeps call (f a) (new ++ log)) :
    Keeps call (p >>= f) log :=
  h.obeys_bind hp (fun _ _ _ hop => renewing_of_quiet hop.quiet) hf fun _ _ _ => trivial

theorem keeps_commit {op : SiteOperation} {batch : SiteBatch α}
    (h : ∀ s, Renewing call log s op) : Keeps call (commit op batch) log :=
  fun s => ⟨h s, keeps_quiet (only_ofExcept _)⟩

theorem keeps_bind {p : Exchange α} {f : α → Exchange β} (h : Keeps call p log)
    (hf : ∀ log' a, Keeps call (f a) log') : Keeps call (p >>= f) log :=
  Obeys.bind h (fun log' a _ _ => hf log' a) fun _ _ _ => trivial

theorem keeps_issueRefreshToken {familyId : Id} {grant : TokenGrant}
    (h : ∀ new row, row.parentId = none → row.grant = grant → Originates (new ++ log) row) :
    Keeps call (issueRefreshToken familyId grant) log := by
  refine keeps_quiet_bind (by simp) (leaves_prepareRefreshToken _ _ _)
    fun new ⟨token, row⟩ ⟨_, hparent, hgrant⟩ => ?_
  have hstores : Keeps call (storeRefreshToken row) (new ++ log) := by
    refine keeps_bind (keeps_commit fun _ => h new row hparent hgrant) fun _ _ => keeps_quiet ?_
    simp [SiteOperation.Quiet]
  exact keeps_bind hstores fun _ _ => keeps_quiet (by simp)

theorem keeps_exchangeFederatedToken (input : TokenExchangeRequest) (client : ClientCredentials)
    (issuer : String) : Keeps call (exchangeFederatedToken input client issuer) [] := by
  refine keeps_quiet_bind (by simp) (leaves_true _) fun _ authenticated _ => ?_
  obtain ⟨oauthClient, application⟩ := authenticated
  refine keeps_quiet_bind (by simp) (leaves_true _) fun _ _ _ => ?_
  refine keeps_quiet_bind (by simp) (leaves_resolveExchange _ _ _)
    fun log₀ trust htrust => ?_
  obtain ⟨credential, subject, scopes, exp⟩ := trust
  obtain ⟨hfound, hmatches, hwords⟩ := htrust
  refine keeps_quiet_bind (by simp) (leaves_true _) fun log₁ now _ => ?_
  refine keeps_quiet_bind (by simp) (leaves_true _) fun log₂ jti _ => ?_
  refine keeps_quiet_bind (by simp) (leaves_true _) fun log₃ id _ => ?_
  obtain ⟨d, hd, hmem⟩ := hfound
  intro s
  refine ⟨trivial, keeps_quiet_bind (only_ofExcept _) (leaves_true _) fun log₄ _ _ => ?_⟩
  dsimp only
  split
  · refine keeps_quiet_bind (by simp) (leaves_true _) fun log₅ familyId _ => ?_
    refine keeps_bind ?_ fun _ _ => trivial
    refine keeps_bind (keeps_issueRefreshToken fun new row hparent hgrant => ?_) fun _ _ => trivial
    refine ⟨hparent, by rw [hgrant]; exact hwords, d, by simp [hd], credential, hmem, ?_⟩
    rw [hgrant]
    exact ⟨rfl, rfl, hmatches⟩
  · exact trivial

/-- What a rotation is prepared with. -/
theorem leaves_prepareRotation (row : RefreshTokenRow) (clientId issuer : String)
    (scopes : List String) (now : ℕ) (hrow : row.grant.clientId = clientId) :
    (prepareRotation row clientId issuer scopes now).Leaves fun prepared _ =>
      prepared.2.2.refreshToken.parentId = some row.id ∧
      prepared.2.2.refreshToken.familyId = row.familyId ∧
      prepared.2.2.refreshToken.grant = { row.grant with scopes := scopes } ∧
      prepared.2.2.accessToken.grant = { row.grant with scopes := scopes } ∧
      ∃ i : AccessTokenInput, prepared.2.2.accessToken.tokenHash = sha256 i.payload ∧
        i.subject = row.grant.subject ∧ i.audience = row.grant.audience ∧ i.scopes = scopes := by
  refine (leaves_true _).bind fun jti _ _ => ?_
  refine (leaves_prepareRefreshToken _ _ _).bind fun ⟨token, record⟩ _ hrecord => ?_
  refine (leaves_true _).bind fun id _ _ => (leaves_true _).bind fun rotatedAt _ _ => ?_
  obtain ⟨hfamily, hparent, hgrant⟩ := hrecord
  subst hrow
  exact ⟨hparent, hfamily, hgrant, rfl, _, rfl, rfl, rfl, rfl⟩

/-- A refresh that returns has rotated the presented token, with an eligible credential when it last
looked. -/
theorem leaves_refreshToken (input : TokenRefreshRequest) (client : ClientCredentials)
    (issuer : String) :
    (refreshToken input client issuer).Leaves fun _ log => ∃ parent seen r,
      (∃ d ∈ log, d.before.findRefreshTokenByHash (sha256 input.refreshToken) = some parent) ∧
      parent.grant.clientId = client.clientId ∧
      (∃ d ∈ log, d.operation = .rotateRefreshToken r) ∧
      r.refreshToken.parentId = some parent.id ∧
      lastSeen log = some seen ∧ seen.HasEligibleCredential parent.grant := by
  refine (leaves_findPresentedToken input client).bind fun presented log₀ hpresented => ?_
  obtain ⟨oauthClient, application, row, now⟩ := presented
  obtain ⟨hclient, hmine, _, hpresented⟩ := hpresented
  dsimp only
  split
  · exact (leaves_true _).bind fun _ _ _ => trivial
  refine (leaves_require _ _).bind fun _ log₁ _ => ?_
  refine (leaves_eligibleCredential row oauthClient.clientId (hmine.trans hclient.symm)).bind
    fun eligible log₂ heligible => ?_
  split
  · exact (leaves_true _).bind fun _ _ _ => trivial
  rename_i hyes
  obtain ⟨s, later, rfl, hlater, hcredential⟩ := heligible (by simpa using hyes)
  have hresolve : (resolveApplicationTokenScopes application row.grant.audience
      (some (input.scope.getD (Text.join row.grant.scopes)))).Only SiteOperation.Aside := by
    simp [resolveApplicationTokenScopes, resolveApplicationTokenScopesForResource, aside_onAccess]
  have hprepare : ∀ scopes, (prepareRotation row oauthClient.clientId issuer scopes now).Only
      SiteOperation.Aside := by
    simp [prepareRotation, prepareRefreshToken, aside_onAccess]
  refine hresolve.leaves.bind fun scopes log₃ hscopes => ?_
  obtain ⟨_, haside₃⟩ := hscopes
  refine ((hprepare scopes).leaves.and (leaves_prepareRotation _ _ _ _ _
    (hmine.trans hclient.symm))).bind fun prepared log₄ hprepared => ?_
  obtain ⟨token, accessToken, r⟩ := prepared
  obtain ⟨⟨_, haside₄⟩, hr⟩ := hprepared
  intro t
  refine (leaves_ofExcept _).bind fun stored log₅ hstored => ?_
  obtain ⟨_, rfl⟩ := hstored
  split
  · obtain ⟨d, hd, hfound⟩ := hpresented
    refine ⟨row, s, r, ⟨d, by simp [hd], hfound⟩, hmine, ⟨⟨.rotateRefreshToken r, t⟩, by simp, rfl⟩,
      hr.1, ?_, hcredential⟩
    have hrest : lastSeen (later ++ ⟨.read, s⟩ :: (log₁ ++ log₀)) = some s := by
      rw [lastSeen_append hlater]
      rfl
    have hrotated : lastSeen (⟨.rotateRefreshToken r, t⟩ :: (log₄ ++ (log₃ ++ (later ++
        ⟨.read, s⟩ :: (log₁ ++ log₀))))) = some s := by
      rw [lastSeen, Log.lastBefore_cons_of_neg rfl, ← lastSeen, lastSeen_append haside₄,
        lastSeen_append haside₃, hrest]
    simpa using hrotated
  · exact (leaves_true _).bind fun _ _ _ => trivial

theorem keeps_refreshToken (input : TokenRefreshRequest) (client : ClientCredentials)
    (issuer : String) :
    Keeps (.refreshToken input client issuer) (refreshToken input client issuer) [] := by
  refine keeps_quiet_bind (by simp) (leaves_findPresentedToken input client)
    fun log₀ presented hpresented => ?_
  obtain ⟨oauthClient, application, row, now⟩ := presented
  obtain ⟨hclient, hmine, hfound, hpresented⟩ := hpresented
  dsimp only
  split
  · exact keeps_quiet (by simp)
  refine keeps_quiet_bind (by simp) (leaves_require _ _) fun log₁ _ hrequired => ?_
  obtain ⟨_, rfl⟩ := hrequired
  refine keeps_quiet_bind (by simp)
    (leaves_eligibleCredential row oauthClient.clientId (hmine.trans hclient.symm))
    fun log₂ eligible heligible => ?_
  split
  · exact keeps_quiet (by simp)
  rename_i hyes
  obtain ⟨s, later, rfl, hlater, hcredential⟩ := heligible (by simpa using hyes)
  refine keeps_aside_bind (by simp [resolveApplicationTokenScopes,
    resolveApplicationTokenScopesForResource, aside_onAccess])
    (leaves_resolveApplicationTokenScopes _ _ _) fun log₃ scopes hscopes haside₃ => ?_
  refine keeps_aside_bind (by simp [prepareRotation, prepareRefreshToken, aside_onAccess])
    (leaves_prepareRotation _ _ _ _ _ (hmine.trans hclient.symm))
    fun log₄ prepared hr haside₄ => ?_
  obtain ⟨token, accessToken, r⟩ := prepared
  refine keeps_bind (keeps_commit fun _ => ⟨input, client, issuer, row, rfl, ?_⟩)
    fun _ stored => keeps_quiet (by simp)
  obtain ⟨hparent, hfamily, hgrant, haccess, hpayload⟩ := hr
  have hissued : r.refreshToken.grant.scopes = scopes := by rw [hgrant]
  obtain ⟨d, hd, hd'⟩ := hfound
  obtain ⟨e, he, he'⟩ := hpresented
  have hlast : lastSeen (log₄ ++ (log₃ ++ (later ++ [⟨.read, s⟩] ++ ([] ++ (log₀ ++ []))))) =
      some s := by
    rw [lastSeen_append haside₄, lastSeen_append haside₃, List.append_assoc,
      lastSeen_append hlater]
    rfl
  refine ⟨⟨e, by simp [he], he'⟩, hmine, hparent, hfamily, ?_, ?_, ?_, fun w hw => ?_,
    fun w hw => ?_, s, hlast, hcredential⟩
  · rw [hissued, hgrant]
  · rw [haccess, hgrant]
  · rwa [hissued]
  · exact (hscopes w (hissued ▸ hw)).1
  · refine ⟨application, ⟨d, by simp [hd], hmine ▸ hd'⟩, ?_⟩
    exact (hscopes w (hissued ▸ hw)).2.mono (by simp +contextual)

variable [Locale]

/-- Every call grounds the refresh tokens that it stores. -/
theorem program_renewing (call : Call) :
    call.program.Obeys (Renewing call) (fun _ _ => True) [] := by
  have hreturns : ∀ {α : Type} {p : Exchange α} {reply : α → Reply}, Keeps call p [] →
      Keeps call (p >>= fun a => done (reply a)) [] := fun h => keeps_bind h fun _ _ => trivial
  cases call with
  | access call => exact hreturns (keeps_quiet (quiet_onAccess _))
  | createResourceConnectionIntent resourceId input actorUserId =>
    exact hreturns (keeps_quiet (quiet_createResourceConnectionIntent resourceId input actorUserId))
  | completeResourceConnectionIntent state provider =>
    exact hreturns (keeps_quiet (quiet_completeResourceConnectionIntent state provider))
  | failResourceConnectionIntent state =>
    refine hreturns (keeps_quiet ?_)
    simp [failResourceConnectionIntent, quiet_consumeResourceConnectionIntent]
  | exchangeToken input client issuer =>
    exact hreturns (keeps_exchangeFederatedToken input client issuer)
  | refreshToken input client issuer => exact hreturns (keeps_refreshToken input client issuer)
  | createFederatedCredential applicationId input =>
    exact hreturns (keeps_quiet (quiet_createFederatedCredential applicationId input))
  | updateFederatedCredential applicationId id patch keys =>
    exact hreturns (keeps_quiet (quiet_updateFederatedCredential applicationId id patch keys))
  | clients rows => exact fun s => ⟨trivial, trivial⟩
  | applications rows => exact fun s => ⟨trivial, trivial⟩

end Program

end FlareAuth.TokenExchange
