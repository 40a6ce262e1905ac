import FlareAuth.DelegatedExchange

/-!
# The audit of an Agent's exchange

Of the operations of an exchange only the append of an audit record appends one,
so the records of an attempt are counted in its own log. Whatever fails, and
whenever it does, a `catch` block leaves one denied record or fails itself.
-/

namespace FlareAuth.Delegation

open Concurrent Procedure TokenExchange

/-- What the verifier answers for the audience that the token names. -/
def ExchangeRequest.verification (input : ExchangeRequest) : Except Failure Json := do
  let verifier ← input.verifier.elim
    (.error (oauthError "temporarily_unavailable"
      "Access token verification is unavailable." 503)) .ok
  let sourceAudience ← input.unverifiedAudience
  sourceAudience.elim
    (.error (oauthError "invalid_grant" "Subject access token audience is invalid.")) verifier

def actsForUser (claims : Json) : Prop := (claims.field "act").isSome

instance (claims : Json) : Decidable (actsForUser claims) := inferInstanceAs (Decidable (_ = true))

/-- An exchange for an ID token, or one of an access token that has an actor if it is valid. -/
def ExchangeRequest.IsAgentAttempt (input : ExchangeRequest) : Prop :=
  input.requestedTokenType = some idTokenType ∨
    (input.subjectTokenType = accessTokenType ∧
      ∀ claims, input.verification = .ok claims → actsForUser claims)

def RealmOperation.IsAppendOf (result : AuditResult) : RealmOperation → Prop
  | .auditing r _ => r = result
  | .append record => record.result = result
  | _ => False

def RealmOperation.IsSilent : RealmOperation → Prop
  | .append _ => False
  | _ => True

/-- Neither an append nor the verification of a token. -/
def RealmOperation.IsPreliminary : RealmOperation → Prop
  | .append _ => False
  | .verify => False
  | _ => True

abbrev RealmLog := Log Realm RealmOperation

def appends (result : AuditResult) (e : Event Realm RealmOperation) : Bool :=
  match e.operation with
  | .append record => e.before.fault.isNone && record.result == result
  | _ => false

/-- How many records of a kind an attempt appended. -/
def appended (result : AuditResult) (log : RealmLog) : ℕ := log.countP (appends result)

def AppendFailed (result : AuditResult) (log : RealmLog) (failure : Failure) : Prop :=
  ∃ e ∈ log, e.operation.IsAppendOf result ∧ e.before.fault = some failure

def Verified (log : RealmLog) : Prop :=
  ∃ e ∈ log, (match e.operation with | .verify => True | _ => False) ∧ e.before.fault = none

/-- The attempt is one for an ID token, or the verifier found an actor in its token. -/
def ExchangeRequest.Identified (input : ExchangeRequest) (log : RealmLog) : Prop :=
  input.grantType = tokenExchangeGrantType ∧
    (input.requestedTokenType = some idTokenType ∨
      (Verified log ∧ ∃ claims, input.verification = .ok claims ∧ actsForUser claims))

theorem appended_cons (result : AuditResult) (op : RealmOperation) (r : Realm) (log : RealmLog) :
    appended result (⟨op, r⟩ :: log) =
      appended result log + if appends result ⟨op, r⟩ then 1 else 0 := List.countP_cons

theorem appends_silent {result : AuditResult} {op : RealmOperation} (h : op.IsSilent) (r : Realm) :
    appends result ⟨op, r⟩ = false := by
  cases op with
  | append record => exact h.elim
  | _ => rfl

theorem appended_grown {result : AuditResult} {log log' : RealmLog}
    (h : Log.Grown RealmOperation.IsSilent log log') :
    appended result log' = appended result log := by
  obtain ⟨new, rfl, hnew⟩ := h
  have hnone : List.countP (appends result) new = 0 := by
    rw [List.countP_eq_zero]
    intro e he
    rw [appends_silent (hnew e he) e.before]
    exact Bool.false_ne_true
  rw [appended, List.countP_append, hnone, Nat.zero_add]
  rfl

/-- No record yet. -/
def Quiet (log : RealmLog) : Prop := ∀ result, appended result log = 0

theorem Quiet.grown {log log' : RealmLog} (h : Quiet log)
    (hgrown : Log.Grown RealmOperation.IsSilent log log') : Quiet log' := by
  intro result
  rw [appended_grown hgrown]
  exact h result

theorem Quiet.silent {log : RealmLog} (h : Quiet log) {op : RealmOperation} (hop : op.IsSilent)
    (r : Realm) : Quiet (⟨op, r⟩ :: log) := h.grown (.cons hop r log)

/-- A failed attempt of an Agent leaves one denied record, unless its append failed. -/
def Settled (log : RealmLog) (failure : Failure) : Prop :=
  appended .allowed log = 0 ∧
    (appended .denied log = 1 ∨ appended .denied log = 0 ∧ AppendFailed .denied log failure)

/-- A successful attempt leaves one allowed record and no other. -/
def Granted (log : RealmLog) : Prop := appended .allowed log = 1 ∧ appended .denied log = 0

abbrev Free : RealmLog → Realm → RealmOperation → Prop := fun _ _ _ => True

/-- A postcondition with a part for each way of ending. -/
def Ends {α : Type} (Q : RealmLog → α → Prop) (E : RealmLog → Failure → Prop) (log : RealmLog) :
    Except Failure α → Prop
  | .ok a => Q log a
  | .error e => E log e

section Append

variable {α β : Type} {result : AuditResult} {log : RealmLog}

def AppendLeaves (result : AuditResult) (log : RealmLog) : Except Failure Unit → Prop
  | .ok _ => ∀ other, appended other log = if other = result then 1 else 0
  | .error e => Quiet log ∧ AppendFailed result log e

/-- A lookup that an append needs either answers or fails the append. -/
theorem obeys_auditing_bind {p : Exchange α} (hp : ∃ op answer, p = query op answer)
    {f : α → Delegated Unit} (hlog : Quiet log)
    (hf : ∀ a log', Quiet log' → Obeys Free (AppendLeaves result) (f a) log') :
    Obeys Free (AppendLeaves result) (auditing result p >>= f) log := by
  obtain ⟨op, answer, rfl⟩ := hp
  have hsilent : RealmOperation.IsSilent (.auditing result op) := trivial
  apply obeys_tryQuery_bind (fun _ => trivial)
  · intro r _
    exact hf _ _ (hlog.silent hsilent r)
  · intro r e he
    exact ⟨hlog.silent hsilent r, _, List.mem_cons_self, rfl, he⟩

theorem obeys_auditedIdentity_bind {issuer subject : Option String}
    {f : Option AgentIdentity → Delegated Unit} (hlog : Quiet log)
    (hf : ∀ a log', Quiet log' → Obeys Free (AppendLeaves result) (f a) log') :
    Obeys Free (AppendLeaves result) (auditedIdentity result issuer subject >>= f) log := by
  cases issuer with
  | none => exact hf none log hlog
  | some issuer =>
    cases subject with
    | none => exact hf none log hlog
    | some subject => exact obeys_auditing_bind ⟨_, _, rfl⟩ hlog hf

theorem obeys_append {record : ExchangeAudit} (hlog : Quiet log) :
    Obeys Free (AppendLeaves record.result) (append record) log := by
  have hstep : Obeys Free (AppendLeaves record.result) (append record >>= done) log := by
    apply obeys_tryQuery_bind (fun _ => trivial)
    · intro r hr other
      rw [appended_cons, hlog other]
      by_cases h : other = record.result
      · simp [appends, hr, h]
      · simp [appends, hr, h, Ne.symm h]
    · intro r e he
      refine ⟨fun other => ?_, _, List.mem_cons_self, rfl, he⟩
      rw [appended_cons, hlog other]
      simp [appends, he]
  rwa [bind_done] at hstep

theorem obeys_appendIdentityTokenExchangeAudit (context : IdentityTokenExchangeAuditContext)
    (outcome : AuditOutcome) (hlog : Quiet log) :
    Obeys Free (AppendLeaves outcome.result) (appendIdentityTokenExchangeAudit context outcome)
      log := by
  apply obeys_auditedIdentity_bind hlog
  intro identity log₁ h₁
  apply obeys_auditing_bind ⟨_, _, rfl⟩ h₁
  intro target log₂ h₂
  apply obeys_auditing_bind ⟨_, _, rfl⟩ h₂
  intro id log₃ h₃
  apply obeys_auditing_bind ⟨_, _, rfl⟩ h₃
  intro now log₄ h₄
  exact obeys_append h₄

theorem obeys_appendAgentResourceTokenExchangeAudit (input : ExchangeRequest) (claims : Json)
    (application : Application) (outcome : AuditOutcome) (issuedScopes : Option (List String))
    (hlog : Quiet log) :
    Obeys Free (AppendLeaves outcome.result)
      (appendAgentResourceTokenExchangeAudit input claims application outcome issuedScopes)
        log := by
  apply obeys_auditedIdentity_bind hlog
  intro identity log₁ h₁
  apply obeys_auditing_bind ⟨_, _, rfl⟩ h₁
  intro target log₂ h₂
  apply obeys_auditing_bind ⟨_, _, rfl⟩ h₂
  intro id log₃ h₃
  apply obeys_auditing_bind ⟨_, _, rfl⟩ h₃
  intro now log₄ h₄
  exact obeys_append h₄

/-- The `catch` block of a part that left no record when it failed. -/
theorem obeys_auditFailure {p : Delegated α} {auditDenied : Failure → Delegated Unit}
    {Q : RealmLog → α → Prop}
    (hdenied : ∀ e log', Quiet log' →
      Obeys Free (AppendLeaves .denied) (auditDenied e) log')
    (hp : Obeys Free (Ends Q fun log' _ => Quiet log') p log) :
    Obeys Free (Ends Q Settled) (auditFailure auditDenied p) log := by
  refine hp.tryCatch (fun _ _ h => h) fun log' e hlog' => ?_
  refine (hdenied e log' hlog').bind ?_ ?_
  · intro log'' _ _ hone
    refine ⟨?_, .inl ?_⟩
    · exact hone .allowed
    · exact hone .denied
  · intro log'' e' hfailed
    exact ⟨hfailed.1 .allowed, .inr ⟨hfailed.1 .denied, hfailed.2⟩⟩

/-- A part that answers and then appends an allowed record. -/
theorem obeys_allowed {p : Delegated α} {audit : α → Delegated Unit}
    (haudit : ∀ a log', Quiet log' → Obeys Free (AppendLeaves .allowed) (audit a) log')
    (hp : Obeys Free (fun log' _ => Quiet log') p log) :
    Obeys Free (Ends (fun log' _ => Granted log') fun log' _ => Quiet log')
      (p >>= fun a => audit a >>= fun _ => done a) log := by
  refine hp.bind (fun log' a _ hlog' => ?_) fun _ _ h => h
  refine (haudit a log' hlog').bind (fun log'' _ _ hone => ?_) fun _ _ h => h.1
  exact ⟨hone .allowed, hone .denied⟩

end Append

section Preliminary

variable {α : Type}

@[simp] theorem only_onSite (p : Exchange α) : (onSite p).Only RealmOperation.IsPreliminary :=
  only_attempt (only_true p) fun _ _ => trivial

@[simp] theorem only_look (answer : Directory → α) :
    (look answer).Only RealmOperation.IsPreliminary := only_onSite _

@[simp] theorem only_clock : clock.Only RealmOperation.IsPreliminary := only_onSite _

@[simp] theorem only_sign (payload : Json) : (sign payload).Only RealmOperation.IsPreliminary :=
  only_tryQuery.mpr trivial

@[simp] theorem only_requireActiveDelegatedUser (subject : Id) :
    (requireActiveDelegatedUser subject).Only RealmOperation.IsPreliminary := by
  apply only_tryCatch
  · simp [getUser]
  · intro e
    split <;> exact trivial

@[simp] theorem only_requireUnexpired (exp : ℤ) (description : String) :
    (requireUnexpired exp description).Only RealmOperation.IsPreliminary := by
  simp [requireUnexpired]

@[simp] theorem only_findActiveTokenLease (input : ExchangeRequest) :
    (findActiveTokenLease input).Only RealmOperation.IsPreliminary := by
  simp [findActiveTokenLease]

@[simp] theorem only_requireSourceAuthority (resourceId : Id) (identity : Option AgentIdentity)
    (lease : Option TokenLease) :
    (requireSourceAuthority resourceId identity lease).Only RealmOperation.IsPreliminary := by
  simp [requireSourceAuthority]

@[simp] theorem only_requireActiveBinding (identity : Option AgentIdentity) (controllerUserId : Id)
    (requiredBindingId : Option Id) :
    (requireActiveBinding identity controllerUserId requiredBindingId).Only
      RealmOperation.IsPreliminary := by
  simp [requireActiveBinding]

@[simp] theorem only_requireActiveMembership (organization : Option Organization)
    (membership : Option Member) :
    (requireActiveMembership organization membership).Only RealmOperation.IsPreliminary := by
  simp [requireActiveMembership]

theorem only_exchangeAgentIdentityTokenVerified (input : ExchangeRequest) (claims : Json)
    (clientId : String) (application : Application) (issuer : String) :
    (exchangeAgentIdentityTokenVerified input claims clientId application issuer).Only
      RealmOperation.IsPreliminary := by
  simp [exchangeAgentIdentityTokenVerified]

@[simp] theorem only_requireActiveDelegatedAgent (input : ExchangeRequest) (claims : Json)
    (sourceResource : ApiResource) (ownerOrganizationId controllerUserId : Id)
    (organizationId : Option Id) :
    (requireActiveDelegatedAgent input claims sourceResource ownerOrganizationId controllerUserId
      organizationId).Only RealmOperation.IsPreliminary := by
  simp [requireActiveDelegatedAgent]

@[simp] theorem only_requireDelegatedActor (input : ExchangeRequest) (claims : Json)
    (sourceResource targetResource : ApiResource) (application : Application) (subject : Id)
    (organizationId : Option Id) :
    (requireDelegatedActor input claims sourceResource targetResource application subject
      organizationId).Only RealmOperation.IsPreliminary := by
  unfold requireDelegatedActor
  split <;> simp

theorem only_exchangeDelegatedUserToken (input : ExchangeRequest) (claims : Json)
    (clientId : String) (application : Application) (issuer : String) :
    (exchangeDelegatedUserToken input claims clientId application issuer).Only
      RealmOperation.IsPreliminary := by
  simp [exchangeDelegatedUserToken]

end Preliminary

theorem RealmOperation.IsPreliminary.silent {op : RealmOperation} (h : op.IsPreliminary) :
    op.IsSilent := by
  cases op with
  | append record => exact h
  | _ => trivial

section Attempt

variable {α : Type} {log : RealmLog} {input : ExchangeRequest}

/-- Nothing that counts has happened: no record was appended and no token verified. -/
def Untouched (log : RealmLog) : Prop := Quiet log ∧ ¬Verified log

theorem untouched_nil : Untouched [] := by
  refine ⟨fun result => rfl, ?_⟩
  rintro ⟨e, he, _⟩
  cases he

theorem Untouched.grown {log' : RealmLog} (h : Untouched log)
    (hgrown : Log.Grown RealmOperation.IsPreliminary log log') : Untouched log' := by
  obtain ⟨new, rfl, hnew⟩ := hgrown
  refine ⟨h.1.grown ⟨new, rfl, fun e he => (hnew e he).silent⟩, ?_⟩
  rintro ⟨e, he, hverify, hfault⟩
  rcases List.mem_append.mp he with he | he
  · have hop := hnew e he
    cases hoperation : e.operation with
    | verify =>
      rw [hoperation] at hop
      exact hop
    | _ =>
      rw [hoperation] at hverify
      exact hverify
  · exact h.2 ⟨e, he, hverify, hfault⟩

theorem obeys_untouched {p : Delegated α} (hp : p.Only RealmOperation.IsPreliminary)
    (hlog : Untouched log) : Obeys Free (fun log' _ => Untouched log') p log :=
  hp.obeys (fun _ _ _ _ => trivial) (fun _ _ hgrown _ => hlog.grown hgrown)
    fun _ _ hgrown => hlog.grown hgrown

theorem obeys_quiet {p : Delegated α} (hp : p.Only RealmOperation.IsPreliminary)
    (hlog : Quiet log) : Obeys Free (fun log' _ => Quiet log') p log := by
  have hsilent : p.Only RealmOperation.IsSilent := hp.mono fun _ h => h.silent
  exact hsilent.obeys (fun _ _ _ _ => trivial) (fun _ _ hgrown _ => hlog.grown hgrown)
    fun _ _ hgrown => hlog.grown hgrown

/-- What the verification of a token leaves: its claims, or no actor that was identified. -/
def VerificationLeaves (input : ExchangeRequest) (log : RealmLog) : Except Failure Json → Prop
  | .ok claims => Quiet log ∧ input.verification = .ok claims
  | .error _ => Quiet log ∧ ¬(Verified log ∧ ∃ claims, input.verification = .ok claims)

theorem obeys_verifyRealmrootAccessToken (hlog : Untouched log) :
    Obeys Free (VerificationLeaves input) (verifyRealmrootAccessToken input) log := by
  have hnever : ∀ e, VerificationLeaves input log (.error e) :=
    fun _ => ⟨hlog.1, fun h => hlog.2 h.1⟩
  unfold verifyRealmrootAccessToken
  refine obeys_orThrow_bind (fun verifier hverifier => ?_) fun _ => hnever _
  cases haudience : input.unverifiedAudience with
  | error e => exact hnever e
  | ok audience =>
    refine obeys_orThrow_bind (fun sourceAudience hsource => ?_) fun _ => hnever _
    have hverification : input.verification = verifier sourceAudience := by
      rw [ExchangeRequest.verification, hverifier, haudience, hsource]
      rfl
    have hasked : Obeys Free (VerificationLeaves input) (verify (verifier sourceAudience)) log := by
      have hsilent : RealmOperation.verify.IsSilent := trivial
      apply obeys_tryQuery_bind (fun _ => trivial)
      · intro r _
        have hquiet : Quiet (⟨.verify, r⟩ :: log) := hlog.1.silent hsilent r
        rw [← hverification]
        cases hanswer : input.verification with
        | ok claims => exact ⟨hquiet, hanswer⟩
        | error e =>
          refine ⟨hquiet, fun h => ?_⟩
          obtain ⟨claims, hclaims⟩ := h.2
          cases hanswer.symm.trans hclaims
      · intro r e he
        refine ⟨hlog.1.silent hsilent r, ?_⟩
        rintro ⟨⟨d, hd, hverify, hfault⟩, _⟩
        rcases List.mem_cons.mp hd with rfl | hd
        · cases he.symm.trans hfault
        · exact hlog.2 ⟨d, hd, hverify, hfault⟩
    exact hasked.tryCatch (fun _ _ h => h) fun _ _ h => h

def AttemptLeaves (input : ExchangeRequest) (log : RealmLog) : Except Failure ExchangedToken → Prop
  | .ok _ => Granted log
  | .error e => Settled log e ∨ Quiet log ∧ ¬input.Identified log

theorem obeys_exchangeAgentIdentityToken (client : ClientCredentials) (issuer : String)
    (hlog : Untouched log) :
    Obeys Free (Ends (fun log' _ => Granted log') Settled)
      (exchangeAgentIdentityToken input client issuer) log := by
  have hdenied : ∀ application claims e log', Quiet log' → Obeys Free (AppendLeaves .denied)
      (appendIdentityTokenExchangeAudit
        (identityTokenExchangeAuditContext input client.clientId application claims)
        (denied "ID token exchange failed unexpectedly." e)) log' := by
    intro application claims e log' hlog'
    have haudit := obeys_appendIdentityTokenExchangeAudit
      (identityTokenExchangeAuditContext input client.clientId application claims)
      (denied "ID token exchange failed unexpectedly." e) hlog'
    have hresult : (denied "ID token exchange failed unexpectedly." e).result = .denied := by
      cases e <;> rfl
    rwa [hresult] at haudit
  unfold exchangeAgentIdentityToken
  refine (obeys_auditFailure (Q := fun log' _ => Untouched log') (hdenied none none) ?_).bind ?_ ?_
  · exact (obeys_untouched (only_onSite _) hlog).mono fun log' r h => by
      cases r with
      | ok a => exact h
      | error e => exact h.1
  · intro log₁ ⟨oauthClient, application⟩ _ h₁
    refine (obeys_auditFailure (Q := fun log' _ => Quiet log') (hdenied _ none) ?_).bind ?_ ?_
    · refine obeys_require_bind (fun _ => ?_) fun _ => h₁.1
      refine obeys_require_bind (fun _ => ?_) fun _ => h₁.1
      exact (obeys_verifyRealmrootAccessToken h₁).mono fun log' r h => by
        cases r <;> exact h.1
    · intro log₂ claims _ h₂
      refine obeys_auditFailure (Q := fun log' _ => Granted log') (hdenied _ _) ?_
      refine obeys_allowed (fun _ log' h => ?_)
        (obeys_quiet (only_exchangeAgentIdentityTokenVerified _ _ _ _ _) h₂)
      exact obeys_appendIdentityTokenExchangeAudit _ allowed h
    · exact fun _ _ h => h
  · exact fun _ _ h => h

theorem obeys_exchangeVerifiedToken {claims : Json} (hact : actsForUser claims) (clientId : String)
    (application : Application) (issuer : String) (hlog : Quiet log) :
    Obeys Free (Ends (fun log' _ => Granted log') Settled)
      (exchangeVerifiedToken input claims clientId application issuer) log := by
  have hsome : ¬(claims.field "act").isNone := by
    rw [Option.isNone_iff_eq_none]
    intro hnone
    rw [actsForUser, hnone] at hact
    cases hact
  unfold exchangeVerifiedToken
  dsimp only
  rw [if_neg hsome]
  refine obeys_auditFailure (Q := fun log' _ => Granted log') (fun e log' hlog' => ?_) ?_
  · have haudit := obeys_appendAgentResourceTokenExchangeAudit input claims application
      (denied "Agent Resource token exchange failed unexpectedly." e) none hlog'
    have hresult :
        (denied "Agent Resource token exchange failed unexpectedly." e).result = .denied := by
      cases e <;> rfl
    rwa [hresult] at haudit
  · refine obeys_allowed (fun _ log' h => ?_)
      (obeys_quiet (only_exchangeDelegatedUserToken _ _ _ _ _) hlog)
    exact obeys_appendAgentResourceTokenExchangeAudit _ _ _ allowed _ h

theorem obeys_exchangeToken (client : ClientCredentials) (issuer : String)
    (hagent : input.IsAgentAttempt) :
    Obeys Free (AttemptLeaves input) (exchangeToken input client issuer) [] := by
  have hnil := untouched_nil
  refine obeys_require_bind (fun _ => ?_) fun hgrant => .inr ⟨hnil.1, fun h => hgrant h.1⟩
  by_cases hid : input.requestedTokenType = some idTokenType
  · rw [if_pos hid]
    exact (obeys_exchangeAgentIdentityToken client issuer hnil).mono fun log r h => by
      cases r with
      | ok token => exact h
      | error e => exact .inl h
  · obtain ⟨haccess, hact⟩ := hagent.resolve_left hid
    rw [if_neg hid, if_pos haccess]
    have hunidentified : ∀ log : RealmLog,
        ¬(Verified log ∧ ∃ claims, input.verification = .ok claims) → ¬input.Identified log := by
      rintro log hno ⟨_, h | ⟨hverified, claims, hclaims, _⟩⟩
      · exact hid h
      · exact hno ⟨hverified, claims, hclaims⟩
    refine (obeys_untouched (only_onSite _) hnil).bind ?_ ?_
    · intro log₁ ⟨oauthClient, application⟩ _ h₁
      refine (obeys_verifyRealmrootAccessToken h₁).bind ?_ ?_
      · intro log₂ claims _ h₂
        refine (obeys_exchangeVerifiedToken (hact claims h₂.2) _ _ _ h₂.1).mono fun log r h => ?_
        cases r with
        | ok token => exact h
        | error e => exact .inl h
      · intro log₂ e h₂
        exact .inr ⟨h₂.1, hunidentified log₂ h₂.2⟩
    · intro log₁ e h₁
      exact .inr ⟨h₁.1, hunidentified log₁ fun h => h₁.2 h.1⟩

end Attempt

/-- What the whole call leaves, if it is an attempt for an Agent. -/
theorem obeys_program (call : Call) :
    call.program.Obeys Free (fun log r => ∀ input client issuer,
      call = .exchangeToken input client issuer → input.IsAgentAttempt →
      ∃ r', r = r'.map some ∧ AttemptLeaves input log r') [] := by
  cases call with
  | site op => exact fun r => ⟨trivial, fun _ _ _ h => nomatch h⟩
  | fault found => exact fun r => ⟨trivial, fun _ _ _ h => nomatch h⟩
  | exchangeToken input client issuer =>
    by_cases hagent : input.IsAgentAttempt
    · refine (obeys_exchangeToken client issuer hagent).bind ?_ ?_
      · rintro log token _ hleaves _ _ _ ⟨⟩ _
        exact ⟨.ok token, rfl, hleaves⟩
      · rintro log e hleaves _ _ _ ⟨⟩ _
        exact ⟨.error e, rfl, hleaves⟩
    · refine (only_true _).obeys (fun _ _ _ _ => trivial) ?_ ?_
      · rintro log r _ _ _ _ _ ⟨⟩ hagent'
        exact absurd hagent' hagent
      · rintro log e _ _ _ _ ⟨⟩ hagent'
        exact absurd hagent' hagent

/-- Audit records are only ever added. -/
theorem audits_evolution : Evolution RealmOperation fun r s : Realm => r.audits <+: s.audits where
  refl r := List.prefix_rfl
  trans r s t := List.IsPrefix.trans
  step op r := by
    have hsite : ∀ op, r.audits <+: (r.onSite op).audits := by
      intro op
      unfold Realm.onSite
      split <;> exact List.prefix_rfl
    rw [apply_eq]
    cases op with
    | site op => exact hsite op
    | auditing result op => exact hsite op
    | append record =>
      unfold RealmOperation.perform
      dsimp only
      split
      · exact List.prefix_append _ _
      · exact List.prefix_rfl
    | _ => exact List.prefix_rfl

/-- What an attempt appended is in the audit table. -/
theorem mem_audits {pool : DelegationPool} (h : DelegationReachable pool)
    {t : Thread Call Realm RealmOperation Failure (Option ExchangedToken)} (ht : t ∈ pool.threads)
    {record : ExchangeAudit} {r : Realm} (he : ⟨.append record, r⟩ ∈ t.log) (hr : r.fault = none) :
    record ∈ pool.store.audits := by
  have hprefix := (h.evolves audits_evolution t ht).2 _ he
  apply hprefix.subset
  rw [apply_eq]
  simp [RealmOperation.perform, hr]

/-- An attempt for an Agent returns a token exactly if it appended one allowed record and no
denied one, and otherwise fails; if it was identified and failed, it appended a denied record or
failed on that. -/
theorem exchange_audited_exactly {pool : DelegationPool} (h : DelegationReachable pool)
    {t : Thread Call Realm RealmOperation Failure (Option ExchangedToken)} (ht : t ∈ pool.threads)
    {input : ExchangeRequest} {client : ClientCredentials} {issuer : String}
    (hcall : t.call = .exchangeToken input client issuer) (hagent : input.IsAgentAttempt)
    {r : Except Failure (Option ExchangedToken)} (hresult : t.rest.result = some r) :
    ((∃ token, r = .ok (some token)) ↔
      appended .allowed t.log = 1 ∧ appended .denied t.log = 0) ∧
    r ≠ .ok none ∧
    (∀ e, r = .error e → input.Identified t.log →
      appended .denied t.log = 1 ∨ AppendFailed .denied t.log e) ∧
    ∀ record s, ⟨.append record, s⟩ ∈ t.log → s.fault = none → record ∈ pool.store.audits := by
  obtain ⟨r', rfl, hleaves⟩ := h.ended (Q := fun call log r => ∀ input client issuer,
      call = .exchangeToken input client issuer → input.IsAgentAttempt →
      ∃ r', r = r'.map some ∧ AttemptLeaves input log r')
      obeys_program ht hresult _ _ _ hcall hagent
  refine ⟨?_, ?_, ?_, fun record s he hs => mem_audits h ht he hs⟩
  · cases r' with
    | ok token => exact ⟨fun _ => hleaves, fun _ => ⟨token, rfl⟩⟩
    | error e =>
      constructor
      · rintro ⟨token, htoken⟩
        cases htoken
      · rintro ⟨hallowed, _⟩
        rcases hleaves with hsettled | ⟨hquiet, _⟩
        · have hnone := hsettled.1
          omega
        · have hnone := hquiet .allowed
          omega
  · intro hnone
    cases r' <;> cases hnone
  · intro e he hidentified
    cases r' with
    | ok token => cases he
    | error e' =>
      obtain rfl : e' = e := Except.error.inj he
      rcases hleaves with hsettled | ⟨_, hunidentified⟩
      · exact hsettled.2.imp id And.right
      · exact absurd hidentified hunidentified

def hasExchanged (t : Thread Call Realm RealmOperation Failure (Option ExchangedToken)) : Bool :=
  match t.call, t.rest with
  | .exchangeToken input _ _, .done (some _) =>
    input.subjectTokenType == accessTokenType &&
      match input.verification with
      | .ok claims => decide (actsForUser claims)
      | .error _ => true
  | _, _ => false

theorem exchange_audited_exactly_sample : ∃ pool : DelegationPool, ∃ t ∈ pool.threads,
    appended .allowed t.log = 1 ∧ appended .denied t.log = 0 := by
  have hrun : (Sample.run (Move.alone 0
      (.exchangeToken Sample.exchange TokenExchange.Sample.credentials "iss") 26)).any
      (fun pool => pool.threads.any hasExchanged) = true := by
    decide +kernel
  obtain ⟨pool, hreach, hcheck⟩ := Sample.reachable_of_run hrun
  obtain ⟨t, ht, hexchanged⟩ := List.any_eq_true.mp hcheck
  refine ⟨pool, t, ht, ?_⟩
  unfold hasExchanged at hexchanged
  split at hexchanged
  · rename_i input client issuer token hcall hdone
    rw [Bool.and_eq_true, beq_iff_eq] at hexchanged
    have hagent : input.IsAgentAttempt := by
      refine .inr ⟨hexchanged.1, fun claims hclaims => ?_⟩
      have hact := hexchanged.2
      rw [hclaims] at hact
      exact of_decide_eq_true hact
    have hresult : t.rest.result = some (.ok (some token)) := by
      rw [hdone]
      rfl
    exact (exchange_audited_exactly hreach ht hcall hagent hresult).1.mp ⟨token, rfl⟩
  · cases hexchanged

end FlareAuth.Delegation
