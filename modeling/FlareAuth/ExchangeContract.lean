import FlareAuth.ExchangeProgram

/-!
# What stands behind each write of an exchange

A refresh token is stored as the first one of a family whose identifier was just
generated, or as the successor of one that the same call read, under a fresh
identifier of its own in both cases.
-/

namespace FlareAuth.TokenExchange

open Concurrent Procedure Access

abbrev ExchangeLog := Log Site SiteOperation

def SiteOperation.Quiet : SiteOperation → Prop
  | .storeAccessToken _ => False
  | .insertRefreshToken _ => False
  | .rotateRefreshToken _ => False
  | _ => True

/-- An identifier that the call has generated, having stored no token since. -/
def Generated (log : ExchangeLog) (id : Id) : Prop :=
  ∃ s earlier, Log.Grown SiteOperation.Quiet (⟨.access .generateId, s⟩ :: earlier) log ∧
    id = s.access.nextId

structure StartsFamily (log : ExchangeLog) (row : RefreshTokenRow) : Prop where
  id : Generated log row.id
  familyId : Generated log row.familyId
  parentId : row.parentId = none
  consumedAt : row.consumedAt = none
  revokedAt : row.revokedAt = none

/-- A parent that was read, and its successor with the access token that goes with it. -/
structure Succeeds (log : ExchangeLog) (r : Rotation) (parent : RefreshTokenRow) : Prop where
  id : Generated log r.refreshToken.id
  read : ∃ d ∈ log, parent ∈ d.before.refreshTokens
  parentId : r.refreshToken.parentId = some parent.id
  familyId : r.refreshToken.familyId = parent.familyId
  credentialId : r.refreshToken.grant.credentialId = parent.grant.credentialId
  grant : r.accessToken.grant = r.refreshToken.grant
  consumedAt : r.refreshToken.consumedAt = none
  revokedAt : r.refreshToken.revokedAt = none

def Grounded (log : ExchangeLog) (_ : Site) : SiteOperation → Prop
  | .insertRefreshToken row => StartsFamily log row
  | .rotateRefreshToken r => ∃ parent, Succeeds log r parent
  | _ => True

/-- A deletion that returned has found its Resource Server and has committed. -/
def Completed [Locale] (call : Call) (log : ExchangeLog) : Except Failure Reply → Prop
  | .ok _ =>
    match call with
    | .access (.deleteResource id _) =>
      ∃ d earlier later, log = later ++ d :: earlier ∧
        (∃ now audit, d.operation = .access (.deleteResource id now audit)) ∧
        ∃ e ∈ earlier, ∃ r, e.before.access.directory.findResource id = some r
    | _ => True
  | .error _ => True

theorem grounded_of_quiet {log : ExchangeLog} {s : Site} {op : SiteOperation} (h : op.Quiet) :
    Grounded log s op := by
  cases op <;> first | exact trivial | exact h.elim

theorem Generated.after {log log' : ExchangeLog} {id : Id} (h : Generated log id)
    (hlog : Log.Grown SiteOperation.Quiet log log') : Generated log' id := by
  obtain ⟨s, earlier, hgrown, hid⟩ := h
  exact ⟨s, earlier, hgrown.trans hlog, hid⟩

variable {α β : Type}

/-- A procedure that stores no exchanged token. -/
abbrev Exchange.Quiet (p : Exchange α) : Prop := p.Only SiteOperation.Quiet

@[simp] theorem quiet_ask (answer : Site → α) : (ask answer).Quiet := by
  simp [ask, SiteOperation.Quiet]

@[simp] theorem quiet_onAccess (p : Access α) : (onAccess p).Quiet := only_lift p.only_true

@[simp] theorem quiet_commit {op : SiteOperation} {batch : SiteBatch α} :
    (commit op batch).Quiet ↔ op.Quiet := by simp [commit]

section Reads

@[simp] theorem quiet_authenticateApplicationClient (c : ClientCredentials) :
    (authenticateApplicationClient c).Quiet := by simp [authenticateApplicationClient]

@[simp] theorem quiet_resolveApplicationTokenScopes (application : Application)
    (audience : String) (scope : Option String) :
    (resolveApplicationTokenScopes application audience scope).Quiet := by
  simp [resolveApplicationTokenScopes, resolveApplicationTokenScopesForResource]

@[simp] theorem quiet_isEligibleAudience (audience : String) (organizationId : Id) :
    (isEligibleAudience audience organizationId).Quiet := by simp [isEligibleAudience]

@[simp] theorem quiet_authorizeExchange (input : TokenExchangeRequest)
    (client : ClientCredentials) : (authorizeExchange input client).Quiet := by
  simp [authorizeExchange]

@[simp] theorem quiet_verifySubjectToken (token : SubjectToken) (assertion : Assertion)
    (credential : ResolvedFederatedCredential) :
    (verifySubjectToken token assertion credential).Quiet := by simp [verifySubjectToken]

@[simp] theorem quiet_resolveExchange (input : TokenExchangeRequest) (client : OAuthClient)
    (application : Application) : (resolveExchange input client application).Quiet := by
  simp [resolveExchange, resolveCredential, requireEligibleAudience]

@[simp] theorem quiet_prepareRefreshToken (familyId : Id) (parentId : Option Id)
    (grant : TokenGrant) : (prepareRefreshToken familyId parentId grant).Quiet := by
  simp [prepareRefreshToken]

@[simp] theorem quiet_findPresentedToken (input : TokenRefreshRequest)
    (client : ClientCredentials) : (findPresentedToken input client).Quiet := by
  simp [findPresentedToken]

@[simp] theorem quiet_eligibleCredential (row : RefreshTokenRow) (clientId : String) :
    (eligibleCredential row clientId).Quiet := by simp [eligibleCredential]

@[simp] theorem quiet_revokeRefreshTokenFamily (familyId : Id) (now : ℕ) :
    (revokeRefreshTokenFamily familyId now).Quiet := by
  simp [revokeRefreshTokenFamily, SiteOperation.Quiet]

@[simp] theorem quiet_ensureAudienceResource (applicationId resourceId : Id) :
    (ensureAudienceResource applicationId resourceId).Quiet := by simp [ensureAudienceResource]

end Reads

section Rules

variable {P : ExchangeLog → Except Failure β → Prop} {log : ExchangeLog}

theorem quiet_then {p : Exchange α} (h : p.Quiet) {f : α → Exchange β}
    (hok : ∀ log' a, Log.Grown SiteOperation.Quiet log log' → p.Returns a →
      (f a).Obeys Grounded P log')
    (herror : ∀ log' e, P log' (.error e)) : (p >>= f).Obeys Grounded P log :=
  h.obeys_bind (fun _ _ _ => grounded_of_quiet) hok fun log' e _ => herror log' e

theorem look_then {answer : Directory → α} {f : α → Exchange β}
    (h : ∀ s : Site, (f (answer s.access.directory)).Obeys Grounded P
      (⟨.access (.read .directory), s⟩ :: log)) :
    (onAccess (look answer) >>= f).Obeys Grounded P log := fun s => ⟨trivial, h s⟩

abbrev Grounds (p : Exchange α) (log : ExchangeLog) : Prop :=
  p.Obeys Grounded (fun _ _ => True) log

theorem grounds_quiet {p : Exchange α} (h : p.Quiet) : Grounds p log :=
  h.obeys (fun _ _ _ => grounded_of_quiet) (fun _ _ _ _ => trivial) fun _ _ _ => trivial

theorem grounds_bind {p : Exchange α} {f : α → Exchange β} (h : Grounds p log)
    (hf : ∀ log' a, log <:+ log' → Grounds (f a) log') : Grounds (p >>= f) log :=
  Obeys.bind h (fun log' a hlog _ => hf log' a hlog) fun _ _ _ => trivial

theorem grounds_quiet_bind {p : Exchange α} (h : p.Quiet) {f : α → Exchange β}
    (hf : ∀ log' a, Log.Grown SiteOperation.Quiet log log' → p.Returns a → Grounds (f a) log') :
    Grounds (p >>= f) log :=
  quiet_then h hf fun _ _ => trivial

theorem grounds_ask_bind {answer : Site → α} {f : α → Exchange β}
    (h : ∀ s, Grounds (f (answer s)) (⟨.read, s⟩ :: log)) : Grounds (ask answer >>= f) log :=
  fun s => ⟨trivial, h s⟩

theorem grounds_generateId_bind {f : Id → Exchange β}
    (h : ∀ log' id, Log.Grown SiteOperation.Quiet log log' → Generated log' id →
      Grounds (f id) log') : Grounds (onAccess generateId >>= f) log := by
  intro s
  refine ⟨trivial, h _ _ (.cons trivial s log) ?_⟩
  exact ⟨s, log, .refl _, rfl⟩

theorem grounds_orThrow_bind {o : Option α} {e : Failure} {f : α → Exchange β}
    (h : ∀ a, o = some a → Grounds (f a) log) : Grounds (orThrow o e >>= f) log :=
  obeys_orThrow_bind h fun _ => trivial

theorem grounds_commit {op : SiteOperation} {batch : SiteBatch α}
    (h : ∀ s, Grounded log s op) : Grounds (commit op batch) log := by
  intro s
  refine ⟨h s, ?_⟩
  exact grounds_quiet (only_ofExcept _)

structure Prepared (log : ExchangeLog) (familyId : Id) (parentId : Option Id) (grant : TokenGrant)
    (row : RefreshTokenRow) : Prop where
  id : Generated log row.id
  familyId : row.familyId = familyId
  parentId : row.parentId = parentId
  grant : row.grant = grant
  consumedAt : row.consumedAt = none
  revokedAt : row.revokedAt = none

theorem grounds_prepareRefreshToken_bind {familyId : Id} {parentId : Option Id}
    {grant : TokenGrant} {f : String × RefreshTokenRow → Exchange β}
    (h : ∀ log' token row, Log.Grown SiteOperation.Quiet log log' →
      Prepared log' familyId parentId grant row → Grounds (f (token, row)) log') :
    Grounds (prepareRefreshToken familyId parentId grant >>= f) log := by
  unfold prepareRefreshToken
  simp only [bind_assoc]
  refine grounds_quiet_bind (by simp) fun log₁ random h₁ _ => ?_
  refine grounds_quiet_bind (by simp) fun log₂ now h₂ _ => ?_
  refine grounds_generateId_bind fun log₃ id h₃ hid => ?_
  refine h log₃ _ _ ((h₁.trans h₂).trans h₃) ?_
  exact ⟨hid, rfl, rfl, rfl, rfl, rfl⟩

end Rules

section Procedures

variable {β : Type}

theorem grounds_storeRefreshToken {row : RefreshTokenRow} {log : ExchangeLog}
    (h : StartsFamily log row) : Grounds (storeRefreshToken row) log := by
  refine grounds_bind (grounds_commit fun _ => h) fun log₁ _ _ => ?_
  refine grounds_ask_bind fun s => grounds_quiet ?_
  simp [SiteOperation.Quiet]

theorem grounds_issueRefreshToken {familyId : Id} {grant : TokenGrant} {log : ExchangeLog}
    (h : Generated log familyId) : Grounds (issueRefreshToken familyId grant) log := by
  refine grounds_prepareRefreshToken_bind fun log₁ token row h₁ hrow => ?_
  have hfamily : Generated log₁ row.familyId := by
    rw [hrow.familyId]
    exact h.after h₁
  refine grounds_bind (grounds_storeRefreshToken ?_) fun log₂ stored _ => grounds_quiet (by simp)
  exact ⟨hrow.id, hfamily, hrow.parentId, hrow.consumedAt, hrow.revokedAt⟩

theorem grounds_exchangeFederatedToken (input : TokenExchangeRequest) (client : ClientCredentials)
    (issuer : String) : Grounds (exchangeFederatedToken input client issuer) [] := by
  refine grounds_quiet_bind (by simp) fun _ ⟨oauthClient, application⟩ _ _ => ?_
  refine grounds_quiet_bind (by simp) fun _ _ _ _ => ?_
  refine grounds_quiet_bind (by simp) fun _ ⟨credential, subject, scopes, exp⟩ _ _ => ?_
  refine grounds_quiet_bind (by simp) fun _ now _ _ => ?_
  refine grounds_quiet_bind (by simp) fun _ jti _ _ => ?_
  refine grounds_quiet_bind (by simp) fun _ id _ _ => ?_
  refine grounds_bind (grounds_commit fun _ => trivial) fun _ _ _ => ?_
  dsimp only
  split
  · refine grounds_generateId_bind fun _ familyId _ hfamily => ?_
    refine grounds_bind ?_ fun _ _ _ => trivial
    exact grounds_bind (grounds_issueRefreshToken hfamily) fun _ _ _ => trivial
  · exact trivial

/-- The presented token was read before anything was computed from it. -/
theorem grounds_findPresentedToken_bind {input : TokenRefreshRequest} {client : ClientCredentials}
    {f : OAuthClient × Application × RefreshTokenRow × ℕ → Exchange β}
    (h : ∀ log oauthClient application row now,
      (∃ d ∈ log, d.before.findRefreshTokenByHash (sha256 input.refreshToken) = some row) →
      Grounds (f (oauthClient, application, row, now)) log) :
    Grounds (findPresentedToken input client >>= f) [] := by
  unfold findPresentedToken
  simp only [bind_assoc]
  refine grounds_quiet_bind (by simp) fun _ _ _ _ => ?_
  refine grounds_quiet_bind (by simp) fun _ ⟨oauthClient, _⟩ _ _ => ?_
  refine grounds_quiet_bind (by simp) fun _ found _ _ => ?_
  refine grounds_quiet_bind (by simp) fun _ application _ _ => ?_
  refine grounds_quiet_bind (by simp) fun _ _ _ _ => ?_
  refine grounds_ask_bind fun s => grounds_orThrow_bind fun row hrow => ?_
  refine grounds_quiet_bind (by simp) fun log now hlog _ => ?_
  refine h log oauthClient application row now ⟨_, hlog.subset List.mem_cons_self, ?_⟩
  exact (Option.filter_eq_some_iff.mp hrow).1

theorem grounds_prepareRotation_bind {row : RefreshTokenRow} {clientId issuer : String}
    {scopes : List String} {now : ℕ} {log : ExchangeLog}
    (hread : ∃ d ∈ log, row ∈ d.before.refreshTokens)
    {f : String × Json × Rotation → Exchange β}
    (h : ∀ log' token accessToken r, Succeeds log' r row →
      Grounds (f (token, accessToken, r)) log') :
    Grounds (prepareRotation row clientId issuer scopes now >>= f) log := by
  unfold prepareRotation
  simp only [bind_assoc]
  refine grounds_quiet_bind (by simp) fun log₁ jti h₁ _ => ?_
  refine grounds_prepareRefreshToken_bind fun log₂ token record h₂ hrecord => ?_
  refine grounds_quiet_bind (by simp) fun log₃ id h₃ _ => ?_
  refine grounds_quiet_bind (by simp) fun log₄ rotatedAt h₄ _ => ?_
  obtain ⟨d, hd, hrow⟩ := hread
  have hsubset : log ⊆ log₄ := (h₁.trans (h₂.trans (h₃.trans h₄))).subset
  have hcredential : record.grant.credentialId = row.grant.credentialId := by rw [hrecord.grant]
  refine h log₄ token _ _ ?_
  exact ⟨hrecord.id.after (h₃.trans h₄), ⟨d, hsubset hd, hrow⟩, hrecord.parentId,
    hrecord.familyId, hcredential, hrecord.grant.symm, hrecord.consumedAt, hrecord.revokedAt⟩

theorem grounds_refreshToken (input : TokenRefreshRequest) (client : ClientCredentials)
    (issuer : String) : Grounds (refreshToken input client issuer) [] := by
  refine grounds_findPresentedToken_bind fun log oauthClient application row now hread => ?_
  obtain ⟨d, hd, hfound⟩ := hread
  dsimp only
  split
  · exact grounds_quiet (by simp)
  refine grounds_quiet_bind (by simp) fun log₁ _ h₁ _ => ?_
  refine grounds_quiet_bind (by simp) fun log₂ eligible h₂ _ => ?_
  split
  · exact grounds_quiet (by simp)
  refine grounds_quiet_bind (by simp) fun log₃ scopes h₃ _ => ?_
  have hmem : d ∈ log₃ := (h₁.trans (h₂.trans h₃)).subset hd
  refine grounds_prepareRotation_bind ⟨d, hmem, List.mem_of_find?_eq_some hfound⟩
    fun log₄ token accessToken r hr => ?_
  refine grounds_bind (grounds_commit fun _ => ⟨row, hr⟩) fun log₅ stored _ => grounds_quiet ?_
  simp

theorem quiet_createResourceConnectionIntent (resourceId : Id)
    (input : CreateResourceConnectionIntent) (actorUserId : Id) :
    (createResourceConnectionIntent resourceId input actorUserId).Quiet := by
  simp [createResourceConnectionIntent, SiteOperation.Quiet]

theorem quiet_consumeResourceConnectionIntent (state : String) :
    (consumeResourceConnectionIntent state).Quiet := by
  simp [consumeResourceConnectionIntent, SiteOperation.Quiet]

theorem quiet_completeResourceConnectionIntent (state : String) (provider : Except Failure Unit) :
    (completeResourceConnectionIntent state provider).Quiet := by
  simp [completeResourceConnectionIntent, quiet_consumeResourceConnectionIntent]

theorem quiet_createFederatedCredential (applicationId : Id) (input : CreateFederatedCredential) :
    (createFederatedCredential applicationId input).Quiet := by
  simp [createFederatedCredential, SiteOperation.Quiet]

theorem quiet_updateFederatedCredential (applicationId id : Id)
    (patch : UpdateFederatedCredential) (keys : Except Failure Unit) :
    (updateFederatedCredential applicationId id patch keys).Quiet := by
  simp [updateFederatedCredential, SiteOperation.Quiet]

end Procedures

theorem onAccess_bind {α β : Type} (p : Access α) (f : α → Access β) :
    onAccess (p >>= f) = onAccess p >>= fun a => onAccess (f a) := lift_bind p f

section Program

variable [Locale]

theorem completed_deleteResource (resourceId : Id) (controllerUserId : Option Id) :
    (Call.access (.deleteResource resourceId controllerUserId)).program.Obeys Grounded
      (Completed (.access (.deleteResource resourceId controllerUserId))) [] := by
  unfold Call.program FlareAuth.Call.program FlareAuth.deleteResource
  simp only [bind_assoc, onAccess_bind]
  refine look_then fun s₀ => ?_
  cases hfound : s₀.access.directory.findResource resourceId with
  | none => exact trivial
  | some resource =>
    refine quiet_then (by simp) (fun _ _ h₀ _ => ?_) fun _ _ => trivial
    refine quiet_then (by simp) (fun _ _ h₁ _ => ?_) fun _ _ => trivial
    refine quiet_then (by simp) (fun _ now h₂ _ => ?_) fun _ _ => trivial
    refine quiet_then (by simp) (fun _ id h₃ _ => ?_) fun _ _ => trivial
    refine quiet_then (by simp) (fun _ active h₄ _ => ?_) fun _ _ => trivial
    refine quiet_then (by simp) (fun log _ h₅ _ => ?_) fun _ _ => trivial
    intro s
    refine ⟨trivial, ?_⟩
    refine quiet_then (quiet_onAccess _) (fun log' _ hlog _ => ?_) fun _ _ => trivial
    obtain ⟨new, hlog', _⟩ := hlog
    have hmem := (h₀.trans (h₁.trans (h₂.trans (h₃.trans (h₄.trans h₅))))).subset
      List.mem_cons_self
    exact ⟨_, log, new, hlog', ⟨now, _, rfl⟩, _, hmem, resource, hfound⟩

theorem completed_other {call : Call}
    (h : ∀ id controllerUserId, call ≠ .access (.deleteResource id controllerUserId))
    (log : ExchangeLog) (r : Except Failure Reply) : Completed call log r := by
  cases r with
  | error e => exact trivial
  | ok reply =>
    cases call with
    | access call =>
      cases call with
      | deleteResource id controllerUserId => exact absurd rfl (h id controllerUserId)
      | _ => exact trivial
    | _ => exact trivial

/-- A call of which nothing is claimed when it returns. -/
theorem contract_of_grounds {α : Type} {p : Exchange α} {reply : α → Reply} {call : Call}
    (hcompleted : ∀ log r, Completed call log r) (h : Grounds p []) :
    (p >>= fun a => done (reply a)).Obeys Grounded (Completed call) [] :=
  Obeys.bind h (fun _ _ _ _ => hcompleted _ _) fun _ _ _ => hcompleted _ _

/-- Every call grounds what it stores, and a deletion that returns has committed. -/
theorem program_contract (call : Call) : call.program.Obeys Grounded (Completed call) [] := by
  have hother := @completed_other _ call
  cases call with
  | access call =>
    cases call with
    | deleteResource resourceId controllerUserId =>
      exact completed_deleteResource resourceId controllerUserId
    | _ => exact contract_of_grounds (hother nofun) (grounds_quiet (quiet_onAccess _))
  | createResourceConnectionIntent resourceId input actorUserId =>
    exact contract_of_grounds (hother nofun)
      (grounds_quiet (quiet_createResourceConnectionIntent resourceId input actorUserId))
  | completeResourceConnectionIntent state provider =>
    exact contract_of_grounds (hother nofun)
      (grounds_quiet (quiet_completeResourceConnectionIntent state provider))
  | failResourceConnectionIntent state =>
    refine contract_of_grounds (hother nofun) (grounds_quiet ?_)
    simp [failResourceConnectionIntent, quiet_consumeResourceConnectionIntent]
  | exchangeToken input client issuer =>
    exact contract_of_grounds (hother nofun) (grounds_exchangeFederatedToken input client issuer)
  | refreshToken input client issuer =>
    exact contract_of_grounds (hother nofun) (grounds_refreshToken input client issuer)
  | createFederatedCredential applicationId input =>
    exact contract_of_grounds (hother nofun)
      (grounds_quiet (quiet_createFederatedCredential applicationId input))
  | updateFederatedCredential applicationId id patch keys =>
    exact contract_of_grounds (hother nofun)
      (grounds_quiet (quiet_updateFederatedCredential applicationId id patch keys))
  | clients rows => exact fun s => ⟨trivial, trivial⟩
  | applications rows => exact fun s => ⟨trivial, trivial⟩

end Program

end FlareAuth.TokenExchange
