import FlareAuth.TokenRefresh
import FlareAuth.TokenRotation

/-!
# Federated credentials that come and go

Token exchange together with the deletion of federated credentials, which takes the tokens of the
deleted ones along. A credential keeps its issuer and its identifier is never given to another, so
a token and a credential of one identifier always agree on the issuer.
-/

namespace FlareAuth.TokenExchange

open Concurrent Procedure Access Relational

inductive CredentialOperation where
  | site (op : SiteOperation)
  | deleteFederatedCredential (applicationId id : Id)

/-- The deletion of a credential cascades to its tokens. -/
def Site.withoutCredential (s : Site) (applicationId id : Id) : Site :=
  let deleted := (s.federatedCredentials.filter fun c =>
    c.id == id && c.applicationId == applicationId).map (·.id)
  { s with
    federatedCredentials := s.federatedCredentials.filter fun c =>
      !(c.id == id && c.applicationId == applicationId)
    accessTokens := s.accessTokens.filter fun t => !deleted.contains t.grant.credentialId
    refreshTokens := s.refreshTokens.filter fun t => !deleted.contains t.grant.credentialId }

def CredentialOperation.perform : CredentialOperation → Site → Site
  | .site op, s => op.perform s
  | .deleteFederatedCredential applicationId id, s => s.withoutCredential applicationId id

instance : Operational CredentialOperation Site := ⟨CredentialOperation.perform⟩

def deleteFederatedCredential (applicationId id : Id) :
    Procedure Site CredentialOperation Failure Unit := do
  let existing ← Procedure.query (.site .read) (·.getFederatedCredential applicationId id)
  require existing.isSome (notFound "Federated credential not found.")
  Procedure.query (.deleteFederatedCredential applicationId id) fun _ => ()

inductive CredentialCall where
  | exchange (call : Call)
  | deleteFederatedCredential (applicationId id : Id)

def CredentialCall.program [Locale] :
    CredentialCall → Procedure Site CredentialOperation Failure Reply
  | .exchange call => call.program.lift (fun s => s) .site
  | .deleteFederatedCredential applicationId id => do
    TokenExchange.deleteFederatedCredential applicationId id
    return .none

abbrev CredentialPool := Pool CredentialCall Site CredentialOperation Failure Reply

abbrev CredentialThread := Thread CredentialCall Site CredentialOperation Failure Reply

structure Site.Blank (s : Site) : Prop extends s.Fresh where
  federatedCredentials : s.federatedCredentials = []

abbrev CredentialReachable [Locale] : CredentialPool → Prop :=
  Reachable CredentialCall.program Site.Blank fun _ _ => True

section Contract

/-- A credential is created under an identifier that was generated in the step before. -/
def Creates (log : ExchangeLog) : SiteOperation → Prop
  | .createFederatedCredential row => ∃ s earlier,
      log = ⟨.access .generateId, s⟩ :: earlier ∧ row.id = s.access.nextId
  | _ => True

def SiteOperation.KeepsCredentials : SiteOperation → Prop
  | .createFederatedCredential _ => False
  | _ => True

variable {α : Type}

@[simp] theorem keepsCredentials_onAccess (p : Access α) :
    (onAccess p).Only SiteOperation.KeepsCredentials := only_lift p.only_true

@[simp] theorem keepsCredentials_ask (answer : Site → α) :
    (ask answer).Only SiteOperation.KeepsCredentials := by
  simp [ask, SiteOperation.KeepsCredentials]

@[simp] theorem keepsCredentials_commit {op : SiteOperation} {batch : SiteBatch α} :
    (commit op batch).Only SiteOperation.KeepsCredentials ↔ op.KeepsCredentials := by
  simp [commit]

theorem creates_of_keepsCredentials {log : ExchangeLog} {op : SiteOperation}
    (h : op.KeepsCredentials) : Creates log op := by
  cases op <;> first | exact trivial | exact h.elim

theorem creates_of_only {p : Exchange α} (h : p.Only SiteOperation.KeepsCredentials)
    (log : ExchangeLog) : p.Obeys (fun log _ op => Creates log op) (fun _ _ => True) log :=
  h.obeys (fun _ _ _ => creates_of_keepsCredentials) (fun _ _ _ _ => trivial) fun _ _ _ => trivial

theorem creates_createFederatedCredential (applicationId : Id)
    (input : CreateFederatedCredential) :
    (createFederatedCredential applicationId input).Obeys (fun log _ op => Creates log op)
      (fun _ _ => True) [] := by
  have hbefore : ∀ {α β : Type} {p : Exchange α} {f : α → Exchange β} {log : ExchangeLog},
      p.Only SiteOperation.KeepsCredentials →
      (∀ log' a, (f a).Obeys (fun log _ op => Creates log op) (fun _ _ => True) log') →
      (p >>= f).Obeys (fun log _ op => Creates log op) (fun _ _ => True) log := fun hp hf =>
    hp.obeys_bind (fun _ _ _ => creates_of_keepsCredentials) (fun log' a _ _ => hf log' a)
      fun _ _ _ => trivial
  refine hbefore (by simp) fun _ application => hbefore (by simp) fun _ _ => ?_
  refine hbefore (by simp) fun _ _ => hbefore (by simp [ensureAudienceResource]) fun log _ => ?_
  intro s
  refine ⟨trivial, fun t => ⟨⟨s, log, rfl, rfl⟩, creates_of_only (by simp) _⟩⟩

@[simp] theorem keepsCredentials_authenticateApplicationClient (client : ClientCredentials) :
    (authenticateApplicationClient client).Only SiteOperation.KeepsCredentials := by
  simp [authenticateApplicationClient]

@[simp] theorem keepsCredentials_resolveApplicationTokenScopes (application : Application)
    (audience : String) (scope : Option String) :
    (resolveApplicationTokenScopes application audience scope).Only
      SiteOperation.KeepsCredentials := by
  simp [resolveApplicationTokenScopes, resolveApplicationTokenScopesForResource]

@[simp] theorem keepsCredentials_prepareRefreshToken (familyId : Id) (parentId : Option Id)
    (grant : TokenGrant) :
    (prepareRefreshToken familyId parentId grant).Only SiteOperation.KeepsCredentials := by
  simp [prepareRefreshToken]

@[simp] theorem keepsCredentials_issueRefreshToken (familyId : Id) (grant : TokenGrant) :
    (issueRefreshToken familyId grant).Only SiteOperation.KeepsCredentials := by
  simp [issueRefreshToken, storeRefreshToken, SiteOperation.KeepsCredentials]

@[simp] theorem keepsCredentials_resolveExchange (input : TokenExchangeRequest)
    (oauthClient : OAuthClient) (application : Application) :
    (resolveExchange input oauthClient application).Only SiteOperation.KeepsCredentials := by
  simp [resolveExchange, resolveCredential, requireEligibleAudience, isEligibleAudience,
    verifySubjectToken]

theorem keepsCredentials_refreshToken (input : TokenRefreshRequest) (client : ClientCredentials)
    (issuer : String) :
    (TokenExchange.refreshToken input client issuer).Only SiteOperation.KeepsCredentials := by
  simp [TokenExchange.refreshToken, findPresentedToken, eligibleCredential, isEligibleAudience,
    prepareRotation, revokeRefreshTokenFamily, SiteOperation.KeepsCredentials]

theorem keepsCredentials_exchangeFederatedToken (input : TokenExchangeRequest)
    (client : ClientCredentials) (issuer : String) :
    (exchangeFederatedToken input client issuer).Only SiteOperation.KeepsCredentials := by
  simp [exchangeFederatedToken, authorizeExchange, SiteOperation.KeepsCredentials]

variable [Locale]

theorem program_creates (call : Call) :
    call.program.Obeys (fun log _ op => Creates log op) (fun _ _ => True) [] := by
  cases call with
  | createFederatedCredential applicationId input =>
    exact (creates_createFederatedCredential applicationId input).bind
      (fun _ _ _ _ => trivial) fun _ _ _ => trivial
  | access call => exact creates_of_only (by simp [Call.program]) _
  | createResourceConnectionIntent resourceId input actorUserId =>
    exact creates_of_only (by simp [Call.program, TokenExchange.createResourceConnectionIntent,
      SiteOperation.KeepsCredentials]) _
  | completeResourceConnectionIntent state provider =>
    exact creates_of_only (by simp [Call.program, TokenExchange.completeResourceConnectionIntent,
      consumeResourceConnectionIntent, SiteOperation.KeepsCredentials]) _
  | failResourceConnectionIntent state =>
    exact creates_of_only (by simp [Call.program, TokenExchange.failResourceConnectionIntent,
      consumeResourceConnectionIntent, SiteOperation.KeepsCredentials]) _
  | exchangeToken input client issuer =>
    exact creates_of_only (only_bind.mpr
      ⟨keepsCredentials_exchangeFederatedToken input client issuer, fun _ _ => only_done _⟩) _
  | refreshToken input client issuer =>
    exact creates_of_only (only_bind.mpr
      ⟨keepsCredentials_refreshToken input client issuer, fun _ _ => only_done _⟩) _
  | updateFederatedCredential applicationId id patch keys =>
    exact creates_of_only (by simp [Call.program, TokenExchange.updateFederatedCredential,
      ensureAudienceResource, SiteOperation.KeepsCredentials]) _
  | clients rows => exact fun s => ⟨trivial, trivial⟩
  | applications rows => exact fun s => ⟨trivial, trivial⟩

/-- What stands behind the operations of exchanges, whose logs are those of their own programs. -/
def Founded (call : CredentialCall) (log : Log Site CredentialOperation) (s : Site) :
    CredentialOperation → Prop
  | .site op => op = .read ∨ ∃ call₀ log₀, call = .exchange call₀ ∧
      log = Log.inject .site log₀ ∧ Renewing call₀ log₀ s op ∧ Creates log₀ op
  | .deleteFederatedCredential _ _ => True

theorem program_founded (call : CredentialCall) :
    call.program.Obeys (Founded call) (fun _ _ => True) [] := by
  cases call with
  | exchange call =>
    refine ((program_renewing call).and (program_creates call)).inject (fun log s op h => ?_)
      fun _ _ _ => trivial
    exact .inr ⟨call, log, rfl, rfl, h.1, h.2⟩
  | deleteFederatedCredential applicationId id =>
    unfold CredentialCall.program TokenExchange.deleteFederatedCredential
    simp only [bind_assoc]
    refine fun s => ⟨.inl rfl, obeys_require_bind (fun _ => ?_) fun _ => trivial⟩
    exact fun t => ⟨trivial, trivial⟩

end Contract

section Store

def Site.SameCredentials (s t : Site) : Prop := t.federatedCredentials = s.federatedCredentials

theorem Site.SameCredentials.refl (s : Site) : s.SameCredentials s := rfl

theorem Site.SameCredentials.trans {s t u : Site} (h : s.SameCredentials t)
    (h' : t.SameCredentials u) : s.SameCredentials u := Eq.trans h' h

theorem sameCredentials_insertAccessToken (row : AccessTokenRow) :
    Batch.Within Site.SameCredentials (Repository.insertAccessToken row) := by
  intro s x t hs
  unfold Repository.insertAccessToken at hs
  split at hs
  · cases hs
  · split at hs <;> cases hs
    rfl

theorem sameCredentials_insertRefreshToken (row : RefreshTokenRow) :
    Batch.Within Site.SameCredentials (Repository.insertRefreshToken row) := by
  intro s x t hs
  unfold Repository.insertRefreshToken at hs
  split at hs
  · cases hs
  · split at hs <;> cases hs
    rfl

theorem sameCredentials_createConnectionIntent (input : ConnectionIntent) :
    Batch.Within Site.SameCredentials (Repository.createConnectionIntent input) := by
  intro s x t hs
  unfold Repository.createConnectionIntent at hs
  split at hs
  · cases hs
    rfl
  · split at hs <;> cases hs
    rfl

theorem FederatedCredential.persists_of_mem_updateWhere {p : FederatedCredential → Bool}
    {f : FederatedCredential → FederatedCredential}
    (hf : ∀ c : FederatedCredential, c.Persists (f c))
    {rows : List FederatedCredential} {c : FederatedCredential} (h : c ∈ updateWhere p f rows) :
    ∃ c₀ ∈ rows, c₀.Persists c := by
  obtain ⟨c₀, hc₀, rfl⟩ := mem_updateWhere.mp h
  refine ⟨c₀, hc₀, ?_⟩
  split
  · exact hf c₀
  · exact .refl c₀

/-- A credential that is there after an operation was there before, or was created by it. -/
theorem mem_federatedCredentials_perform {op : SiteOperation} {s : Site}
    {c : FederatedCredential} (h : c ∈ (op.perform s).federatedCredentials) :
    (∃ c₀ ∈ s.federatedCredentials, c₀.Persists c) ∨ op = .createFederatedCredential c := by
  have hsame : s.SameCredentials (op.perform s) →
      (∃ c₀ ∈ s.federatedCredentials, c₀.Persists c) ∨ op = .createFederatedCredential c := by
    intro heq
    rw [heq] at h
    exact .inl ⟨c, h, .refl c⟩
  have hsettle : ∀ {α : Type} {b : SiteBatch α}, Batch.Within Site.SameCredentials b →
      s.SameCredentials (b.settle s) := fun h => h.settle Site.SameCredentials.refl s
  cases op with
  | createFederatedCredential input =>
    change c ∈ ((Repository.createFederatedCredential input).settle s).federatedCredentials at h
    unfold Batch.settle Repository.createFederatedCredential at h
    split at h
    · rename_i t hcreated
      split at hcreated <;> cases hcreated
      rcases List.mem_append.mp h with h | h
      · exact .inl ⟨c, h, .refl c⟩
      · exact .inr (by rw [List.mem_singleton.mp h])
    · exact .inl ⟨c, h, .refl c⟩
  | updateFederatedCredential applicationId id patch =>
    exact .inl (FederatedCredential.persists_of_mem_updateWhere (f := (·.patched patch))
      (fun _ => ⟨rfl, rfl, rfl⟩) h)
  | access op =>
    change c ∈ (if op.keepsResources then
        ({ s.cascade op with access := op.perform s.access } : Site)
      else s).federatedCredentials at h
    split at h
    · cases op with
      | deleteResource id now audit =>
        exact .inl (FederatedCredential.persists_of_mem_updateWhere
          (f := fun c => { c with enabled := false }) (fun _ => ⟨rfl, rfl, rfl⟩) h)
      | _ => exact .inl ⟨c, h, .refl c⟩
    · exact .inl ⟨c, h, .refl c⟩
  | storeAccessToken row => exact hsame (hsettle (sameCredentials_insertAccessToken row))
  | insertRefreshToken row => exact hsame (hsettle (sameCredentials_insertRefreshToken row))
  | createConnectionIntent input =>
    exact hsame (hsettle (sameCredentials_createConnectionIntent input))
  | rotateRefreshToken r =>
    exact hsame (hsettle (Repository.within_rotateRefreshToken Site.SameCredentials.refl
      (fun _ _ _ => .trans) (sameCredentials_insertRefreshToken _)
      (fun _ => show _ = _ from rfl) (sameCredentials_insertAccessToken _)))
  | _ => exact hsame rfl

theorem mem_federatedCredentials_apply {op : CredentialOperation} {s : Site}
    {c : FederatedCredential} (h : c ∈ (apply op s).federatedCredentials) :
    (∃ c₀ ∈ s.federatedCredentials, c₀.Persists c) ∨ op = .site (.createFederatedCredential c) := by
  cases op with
  | site op => exact (mem_federatedCredentials_perform h).imp_right (congrArg _)
  | deleteFederatedCredential applicationId id =>
    exact .inl ⟨c, (List.mem_filter.mp h).1, .refl c⟩

theorem mem_refreshTokens_apply {op : CredentialOperation} {s : Site} {t : RefreshTokenRow}
    (h : t ∈ (apply op s).refreshTokens) :
    (∃ t₀ ∈ s.refreshTokens, t₀.Persists t) ∨
      ∃ op₀ row, op = .site op₀ ∧ op₀.storedRefreshToken = some row ∧ row.Persists t := by
  cases op with
  | site op =>
    refine (mem_refreshTokens_perform h).imp_right fun ⟨row, hrow, hpersists⟩ => ?_
    exact ⟨op, row, rfl, hrow, hpersists⟩
  | deleteFederatedCredential applicationId id =>
    exact .inl ⟨t, (List.mem_filter.mp h).1, .refl t⟩

end Store

section Fresh

def CredentialOperation.generates : CredentialOperation → Prop
  | .site op => op.generates
  | .deleteFederatedCredential _ _ => False

/-- The operation creates a credential under an identifier that was generated at a time. -/
def CredentialOperation.usesId (op : CredentialOperation) (n : ℕ) : Prop :=
  ∃ row, op = .site (.createFederatedCredential row) ∧ row.id = "id-" ++ toString n

theorem credential_generated_evolution :
    Evolution CredentialOperation fun s t : Site => s.access.generated ≤ t.access.generated := by
  refine ⟨fun _ => le_rfl, fun _ _ _ => le_trans, fun op s => ?_⟩
  cases op with
  | site op => exact generated_evolution.step op s
  | deleteFederatedCredential applicationId id => exact le_rfl

theorem credential_generated_lt (op : CredentialOperation) (s : Site) (h : op.generates) :
    s.access.generated < (apply op s).access.generated := by
  cases op with
  | site op => exact generated_lt_perform op s h
  | deleteFederatedCredential applicationId id => exact h.elim

theorem not_usesId_of_generates (op : CredentialOperation) (n : ℕ) (h : op.generates) :
    ¬op.usesId n := by
  rintro ⟨row, rfl, _⟩
  exact h

theorem founded_drawn {call : CredentialCall} {log : Log Site CredentialOperation} {s : Site}
    {op : CredentialOperation} (h : Founded call log s op) :
    Drawn (fun s : Site => s.access.generated) CredentialOperation.generates
      CredentialOperation.usesId log op := by
  rintro n ⟨row, rfl, hid⟩
  rcases h with h | ⟨call₀, log₀, _, rfl, _, before, earlier, rfl, hnext⟩
  · cases h
  · refine ⟨⟨.site (.access .generateId), before⟩, Log.inject .site earlier, .refl _, trivial, ?_⟩
    exact Text.toString_inj ((String.append_right_inj _).mp (hnext.symm.trans hid))

variable [Locale] {pool : CredentialPool} {i : ℕ} {t : CredentialThread}

/-- The identifier of a credential that is about to be created has never been one. -/
theorem credential_fresh_of_pending (h : CredentialReachable pool) {row : FederatedCredential}
    (hpending : pool.pending i = some (t, .site (.createFederatedCredential row))) :
    ∀ s ∈ pool.history, ∀ c ∈ s.federatedCredentials, c.id ≠ row.id := by
  intro s hs c hc hid
  obtain ⟨ht, hfounded⟩ := h.pending_obeys program_founded hpending
  obtain ⟨n, hn⟩ : ∃ n : ℕ, row.id = "id-" ++ toString n := by
    rcases hfounded with hread | ⟨_, _, _, _, _, before, _, _, hnext⟩
    · cases hread
    · exact ⟨_, hnext⟩
  obtain ⟨v, hv, e, he, hbefore, c', hc', hid'⟩ :=
    h.cause_history (P := fun s => ∃ c ∈ s.federatedCredentials, c.id = row.id)
      (fun s hs => by simp [hs.federatedCredentials]) hs ⟨c, hc, hid⟩
  rcases mem_federatedCredentials_apply hc' with ⟨c₀, hc₀, hpersists⟩ | hcreated
  · exact hbefore ⟨c₀, hc₀, hpersists.id.symm.trans hid'⟩
  · refine h.unused credential_generated_evolution credential_generated_lt not_usesId_of_generates
      program_founded (fun _ _ _ _ => founded_drawn) hpending ⟨row, rfl, hn⟩ v hv e he ?_
    exact ⟨c', hcreated, hid'.trans hn⟩

end Fresh

end FlareAuth.TokenExchange
