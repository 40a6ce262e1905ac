import FlareAuth.ProviderCredentials

/-!
# What happens to a credential

Each operation leaves the credentials alone, inserts one, or updates those which
it selects. A refresh attempt acts on the version that it read and under the
claim that it made.
-/

namespace FlareAuth.Credentials

open Concurrent Procedure Relational

/-- The rows that an operation selects, and what it makes of them. -/
inductive Updates : Operation → (Credential → Bool) → (Credential → Credential) → Prop where
  | replace (authorizationId : Id) (input : Credential) :
    Updates (.upsertProviderCredential authorizationId input) (·.authorizationId == authorizationId)
      (·.replaced input)
  | claim (claim : RefreshClaim) :
    Updates (.claimProviderCredentialRefresh claim) (·.claimable claim) fun c => { c with
      refreshClaimId := some claim.claimId
      refreshClaimExpiresAt := some claim.claimExpiresAt }
  | complete (id : Id) (input : RefreshedTokens) :
    Updates (.completeProviderCredentialRefresh id input)
      (fun c => c.id == id && c.claimedAt input.expectedVersion input.claimId) (·.refreshed input)
  | release (id : Id) (expectedVersion : ℕ) (claimId : Id) :
    Updates (.releaseProviderCredentialRefresh id expectedVersion claimId)
      (fun c => c.id == id && c.claimedAt expectedVersion claimId) (·.release)
  | revoke (id : Id) (now : ℕ) :
    Updates (.revokeProviderCredential id now) (fun c => c.id == id && c.status == .active)
      (·.revoke now)
  | disconnect (id : Id) (now : ℕ) :
    Updates (.revokeConnection id now) (·.authorizationId == id)
      fun c => { c with status := .revoked, revokedAt := some now }

/-- The row is new: neither its identifier nor its authorization is taken. -/
def Store.Lacks (s : Store) (c : Credential) : Prop :=
  ∀ r ∈ s.credentials, r.id ≠ c.id ∧ r.authorizationId ≠ c.authorizationId

theorem insertCredential_settle (s : Store) (input : Credential) :
    (Repository.insertCredential input s = .error (.error "constraint failed")) ∨
      (Repository.insertCredential input s =
        .ok ((), { s with credentials := s.credentials ++ [input] }) ∧ s.Lacks input) := by
  unfold Repository.insertCredential
  split
  · exact .inl rfl
  · rename_i h
    refine .inr ⟨rfl, fun r hr => ?_⟩
    simp only [Bool.or_eq_true, List.any_eq_true, not_or, not_exists, not_and] at h
    simpa using h.1 r hr

/-- What an operation does to the credentials, said once. -/
theorem credentials_perform (op : Operation) (s : Store) :
    (op.perform s).credentials = s.credentials ∨
      (∃ c, (op.perform s).credentials = s.credentials ++ [c] ∧ s.Lacks c) ∨
      ∃ p f, Updates op p f ∧ (op.perform s).credentials = updateWhere p f s.credentials := by
  cases op with
  | upsertProviderCredential authorizationId input =>
    by_cases h : s.credentials.any (·.authorizationId == authorizationId) = true
    · refine .inr (.inr ⟨_, _, .replace authorizationId input, ?_⟩)
      simp only [Operation.perform, Batch.settle, Repository.upsertProviderCredential, bind,
        Batch.modify, Batch.read, if_pos h]
      rfl
    · simp only [Operation.perform, Batch.settle, Repository.upsertProviderCredential, bind,
        Batch.modify, Batch.read, if_neg h]
      rcases insertCredential_settle { s with
        authorizations := updateWhere (fun a => a.id == authorizationId)
          (fun a => { a with status := .active, revokedAt := none }) s.authorizations }
        { input with authorizationId := authorizationId } with herror | ⟨hok, hlacks⟩
      · rw [herror]
        exact .inl rfl
      · rw [hok]
        exact .inr (.inl ⟨_, rfl, hlacks⟩)
  | createResourceAuthorization authorization credential =>
    simp only [Operation.perform]
    rcases hbatch : Repository.createResourceAuthorization authorization credential
      s with e | ⟨x, t⟩
    · rw [Batch.settle_of_error hbatch]
      exact .inl rfl
    · rw [Batch.settle_of_ok hbatch]
      obtain ⟨active, s₁, hread, hbatch⟩ := Batch.bind_eq_ok.mp hbatch
      cases hread
      obtain ⟨taken, s₂, hread, hbatch⟩ := Batch.bind_eq_ok.mp hbatch
      cases hread
      by_cases htaken : (s.activeResource authorization.resourceId &&
          s.authorizations.any fun a => a.id == authorization.id ||
            (a.providerConnectionId == authorization.providerConnectionId &&
              a.resourceId == authorization.resourceId)) = true
      · rw [if_pos htaken] at hbatch
        cases hbatch
      · rw [if_neg htaken] at hbatch
        obtain ⟨_, s₃, hmodify, hbatch⟩ := Batch.bind_eq_ok.mp hbatch
        have hsame : s₃.credentials = s.credentials := by
          cases hmodify
          split <;> rfl
        rcases insertCredential_settle s₃ credential with herror | ⟨hok, hlacks⟩
        · rw [herror] at hbatch
          cases hbatch
        · rw [hok] at hbatch
          cases hbatch
          refine .inr (.inl ⟨credential, ?_, ?_⟩)
          · rw [hsame]
          · rwa [Store.Lacks, hsame] at hlacks
  | insertProviderConnection input =>
    rw [Operation.perform, Batch.settle, Repository.insertProviderConnection]
    left
    split
    · rename_i heq
      split at heq <;> cases heq <;> rfl
    · rfl
  | claimProviderCredentialRefresh claim => exact .inr (.inr ⟨_, _, .claim claim, rfl⟩)
  | completeProviderCredentialRefresh id input => exact .inr (.inr ⟨_, _, .complete id input, rfl⟩)
  | releaseProviderCredentialRefresh id expectedVersion claimId =>
    exact .inr (.inr ⟨_, _, .release id expectedVersion claimId, rfl⟩)
  | revokeProviderCredential id now => exact .inr (.inr ⟨_, _, .revoke id now, rfl⟩)
  | revokeConnection id now => exact .inr (.inr ⟨_, _, .disconnect id now, rfl⟩)
  | _ => exact .inl rfl

theorem Updates.id {op : Operation} {p : Credential → Bool} {f : Credential → Credential}
    (h : Updates op p f) (c : Credential) : (f c).id = c.id := by
  cases h <;> rfl

theorem Updates.authorizationId {op : Operation} {p : Credential → Bool}
    {f : Credential → Credential} (h : Updates op p f) (c : Credential) :
    (f c).authorizationId = c.authorizationId := by
  cases h <;> rfl

/-- The primary key and the unique index on the authorization. -/
structure Store.Unique (s : Store) : Prop where
  ids : (s.credentials.map (·.id)).Nodup
  authorizations : (s.credentials.map (·.authorizationId)).Nodup

theorem unique_perform (op : Operation) {s : Store} (h : s.Unique) : (op.perform s).Unique := by
  rcases credentials_perform op s with hsame | ⟨c, hinsert, hlacks⟩ | ⟨p, f, hupdates, hupdate⟩
  · exact ⟨by rw [hsame]; exact h.ids, by rw [hsame]; exact h.authorizations⟩
  · constructor
    · rw [hinsert]
      exact nodup_map_append_singleton h.ids fun r hr => (hlacks r hr).1
    · rw [hinsert]
      exact nodup_map_append_singleton h.authorizations fun r hr => (hlacks r hr).2
  · constructor
    · rw [hupdate]
      exact nodup_map_updateWhere (fun r _ => hupdates.id r) h.ids
    · rw [hupdate]
      exact nodup_map_updateWhere (fun r _ => hupdates.authorizationId r) h.authorizations

def Claimed (e : Event Store Operation) (id : Id) (expectedVersion : ℕ) (claimId : Id) : Prop :=
  ∃ claim, e.operation = .claimProviderCredentialRefresh claim ∧ claim.id = id ∧
    claim.expectedVersion = expectedVersion ∧ claim.claimId = claimId ∧
    e.before.credentials.any (·.claimable claim) = true

def Operation.IsClaim : Operation → Prop
  | .claimProviderCredentialRefresh _ => True
  | _ => False

def Operation.IsRevocation : Operation → Prop
  | .revokeProviderCredential _ _ => True
  | _ => False

def HasRead (log : Log Store Operation) (credential : Credential) : Prop :=
  ∃ d ∈ log, d.operation = .readCredential credential.id ∧
    d.before.findCredential credential.id = some credential

def InvalidGrant (e : Failure) : Prop :=
  ∃ status description, e = .oauth status "invalid_grant" description

def Refused (d : Event Store Operation) : Prop :=
  ∃ refreshToken e, d.operation = .refresh refreshToken ∧
    d.before.provider.refresh refreshToken = .error e ∧ InvalidGrant e

/-- What a refresh attempt does: it claims once, at the version it read and under an identifier it
generated, and completes or releases only what it claimed. It revokes once, when it was refused. -/
def Guarantee (log : Log Store Operation) (_ : Store) : Operation → Prop
  | .claimProviderCredentialRefresh claim =>
    (∃ g ∈ log, g.operation = .generateId ∧ claim.claimId = g.before.nextId) ∧
      (∃ credential, HasRead log credential ∧ credential.id = claim.id ∧
        credential.credentialVersion = claim.expectedVersion) ∧
      ∀ e ∈ log, ¬e.operation.IsClaim ∧ ¬Refused e
  | .completeProviderCredentialRefresh id input =>
    (∃ e ∈ log, Claimed e id input.expectedVersion input.claimId) ∧
      (∃ credential, HasRead log credential ∧ credential.id = id ∧
        credential.credentialVersion = input.expectedVersion ∧
        ∃ d ∈ log, d.operation = .refresh credential.tokens.refreshToken) ∧
      ∀ d ∈ log, ¬Refused d
  | .releaseProviderCredentialRefresh id expectedVersion claimId =>
    (∃ e ∈ log, Claimed e id expectedVersion claimId) ∧ ∀ d ∈ log, ¬Refused d
  | .revokeProviderCredential id _ =>
    (∃ e ∈ log, ∃ version claimId, Claimed e id version claimId) ∧ (∃ d ∈ log, Refused d) ∧
      ∀ e ∈ log, ¬e.operation.IsRevocation
  | _ => True

def Operation.IsOther : Operation → Prop
  | .claimProviderCredentialRefresh _ => False
  | .completeProviderCredentialRefresh _ _ => False
  | .releaseProviderCredentialRefresh _ _ _ => False
  | .revokeProviderCredential _ _ => False
  | _ => True

theorem guarantee_of_isOther (log : Log Store Operation) (s : Store) (op : Operation)
    (h : op.IsOther) : Guarantee log s op := by
  cases op <;> first | exact trivial | exact h.elim

section Contract

section Other

variable {α : Type}

@[simp] theorem only_look (answer : Store → α) : (look answer).Only Operation.IsOther :=
  ⟨trivial, fun _ => trivial⟩

@[simp] theorem only_call (answer : Provider → Except Failure α) :
    (call answer).Only Operation.IsOther := by simp [call]

@[simp] theorem only_generateId : generateId.Only Operation.IsOther := ⟨trivial, fun _ => trivial⟩

@[simp] theorem only_commit {op : Operation} (h : op.IsOther) (batch : StoreBatch α) :
    (commit op batch).Only Operation.IsOther := ⟨h, fun _ => only_ofExcept _⟩

end Other

theorem refreshFailed_obeys {credential : Credential} {claimId : Id} {log : Log Store Operation}
    {error : Failure}
    (hclaim : ∃ e ∈ log, Claimed e credential.id credential.credentialVersion claimId)
    (hrefused : (∃ d ∈ log, Refused d) ↔ InvalidGrant error)
    (hnone : ∀ e ∈ log, ¬e.operation.IsRevocation) :
    (refreshFailed credential claimId error).Obeys Guarantee (fun _ _ => True) log := by
  obtain ⟨e, he, hclaimed⟩ := hclaim
  have hother : ∀ log s op, Operation.IsOther op → Guarantee log s op := guarantee_of_isOther
  intro s₀
  refine ⟨trivial, ?_⟩
  have hmem : e ∈ (⟨.read, s₀⟩ :: log : Log Store Operation) := List.mem_cons_of_mem _ he
  have hread : ¬Refused ⟨.read, s₀⟩ := by
    rintro ⟨_, _, hop, _⟩
    cases hop
  dsimp only
  split
  · rename_i status description
    obtain ⟨d, hd, hrefusal⟩ := hrefused.mpr ⟨status, description, rfl⟩
    intro s₁
    refine ⟨⟨⟨e, hmem, _, _, hclaimed⟩, ⟨d, List.mem_cons_of_mem _ hd, hrefusal⟩, ?_⟩, ?_⟩
    · intro r hr
      rcases List.mem_cons.mp hr with rfl | hr
      · exact id
      · exact hnone r hr
    · refine (only_bind.mpr ⟨?_, fun _ _ => ?_⟩ : Only Operation.IsOther _).obeys hother
        (fun _ _ _ _ => trivial) fun _ _ _ => trivial
      · refine only_bind.mpr ⟨only_ofExcept _, fun found _ => ?_⟩
        cases found with
        | none => exact trivial
        | some authorizationId => exact ⟨trivial, fun _ => only_ofExcept _⟩
      · exact trivial
  · rename_i hne
    intro s₁
    refine ⟨⟨⟨e, hmem, hclaimed⟩, ?_⟩, ?_⟩
    · intro r hr hrefusal
      rcases List.mem_cons.mp hr with rfl | hr
      · exact hread hrefusal
      · obtain ⟨status, description, rfl⟩ := hrefused.mp ⟨r, hr, hrefusal⟩
        exact hne status description rfl
    · refine (only_bind.mpr ⟨only_ofExcept _, fun _ _ => ?_⟩ : Only Operation.IsOther _).obeys
        hother (fun _ _ _ _ => trivial) fun _ _ _ => trivial
      exact trivial

theorem only_ensureProviderConnection (resource : ApiResource) (intent : ConnectionIntent)
    (profile : ProviderProfile) :
    (ensureProviderConnection resource intent profile).Only Operation.IsOther := by
  have hupsert : ∀ input, (upsertProviderConnection input).Only Operation.IsOther := by
    intro input
    have hinsert : (Operation.insertProviderConnection input).IsOther := trivial
    have hupdate : (Operation.updateProviderConnection input).IsOther := trivial
    simp [upsertProviderConnection, hinsert, hupdate]
  simp only [ensureProviderConnection, only_bind, only_orThrow, only_look, only_require, true_and]
  intros
  split
  · simp [hupsert]
  · simp [hupsert]

theorem requiredString_error {value : Option String} {field label : String} {e : Failure}
    (h : requiredString value field label = .error e) : ¬InvalidGrant e := by
  unfold requiredString at h
  split at h
  · cases h
  · cases h
    rintro ⟨_, _, he⟩
    cases he

variable [Locale]

theorem refreshedDetails_error {credential : Credential} {token : ProviderToken} {e : Failure}
    (h : refreshedDetails credential token = .error e) : ¬InvalidGrant e := by
  rintro ⟨status, description, rfl⟩
  have hdetails : ∀ (value : Presence (List AuthorizationDetail)) required types label,
      readAuthorizationDetails value required types label ≠
        .error (.oauth status "invalid_grant" description) := by
    intro value required types label heq
    cases value with
    | absent =>
      simp only [readAuthorizationDetails, invalidAuthorizationDetails, oauthError] at heq
      split at heq <;> simp at heq
    | malformed => simp [readAuthorizationDetails, invalidAuthorizationDetails, oauthError] at heq
    | value details =>
      simp only [readAuthorizationDetails, invalidAuthorizationDetails, oauthError] at heq
      split at heq
      · simp at heq
      · split at heq <;> simp at heq
  have hexact : ∀ details : List AuthorizationDetail,
      (if exactAuthorizationDetails details credential.authorizationDetails then pure ()
        else throw (unauthorized
          "Target authorization server changed authorization details during refresh.")) ≠
      (.error (.oauth status "invalid_grant" description) : Except Failure Unit) := by
    intro details heq
    split at heq <;> exact nomatch heq
  unfold refreshedDetails at h
  split at h
  · exact hexact _ h
  · cases hread : readAuthorizationDetails token.authorizationDetails
        (!credential.authorizationDetails.isEmpty) (detailTypes credential.authorizationDetails)
        "OAuth refresh response" with
    | error e =>
      rw [hread] at h
      cases h
      exact hdetails _ _ _ _ hread
    | ok details =>
      rw [hread] at h
      exact hexact _ h

/-- What an exchange leaves: no revocation, and a failure that tells whether it was refused. -/
def Exchanged (log log' : Log Store Operation) (r : Except Failure Unit) : Prop :=
  log.Grown (fun op => ¬op.IsRevocation) log' ∧
    ∀ e, r = .error e → ((∃ d ∈ log', Refused d) ↔ InvalidGrant e)

theorem exchangeRefreshToken_obeys {credential : Credential} {claimId : Id}
    {log : Log Store Operation}
    (hclaim : ∃ e ∈ log, Claimed e credential.id credential.credentialVersion claimId)
    (hread : HasRead log credential) (hnone : ∀ d ∈ log, ¬Refused d) :
    (exchangeRefreshToken credential claimId).Obeys Guarantee (Exchanged log) log := by
  intro s₀
  refine ⟨trivial, ?_⟩
  generalize hlog₁ :
    (⟨.refresh credential.tokens.refreshToken, s₀⟩ :: log : Log Store Operation) = log₁
  have hrefreshed : ⟨.refresh credential.tokens.refreshToken, s₀⟩ ∈ log₁ := by
    rw [← hlog₁]
    exact List.mem_cons_self
  have hgrown : log.Grown (fun op => ¬op.IsRevocation) log₁ := by
    rw [← hlog₁]
    exact .cons id _ _
  change Obeys _ _ (Procedure.ofExcept (s₀.provider.refresh credential.tokens.refreshToken) >>= _) _
  cases hanswer : s₀.provider.refresh credential.tokens.refreshToken with
  | error e =>
    refine ⟨hgrown, fun e' he' => ?_⟩
    obtain rfl : e = e' := Except.error.inj he'
    constructor
    · rintro ⟨d, hd, hrefused⟩
      rw [← hlog₁] at hd
      rcases List.mem_cons.mp hd with rfl | hd
      · obtain ⟨_, _, hop, herror, hgrant⟩ := hrefused
        cases hop
        obtain rfl := Except.error.inj (hanswer.symm.trans herror)
        exact hgrant
      · exact absurd hrefused (hnone d hd)
    · intro hgrant
      exact ⟨_, hrefreshed, _, _, rfl, hanswer, hgrant⟩
  | ok token =>
    have hnone₁ : ∀ d ∈ log₁, ¬Refused d := by
      intro d hd hrefused
      rw [← hlog₁] at hd
      rcases List.mem_cons.mp hd with rfl | hd
      · obtain ⟨_, _, hop, herror, _⟩ := hrefused
        cases hop
        rw [hanswer] at herror
        cases herror
      · exact hnone d hd hrefused
    have hfails : ∀ {log' e}, log.Grown (fun op => ¬op.IsRevocation) log' →
        (∀ d ∈ log', ¬Refused d) → ¬InvalidGrant e → Exchanged log log' (.error e) := by
      intro log' e hlog' hnone' hgrant
      refine ⟨hlog', fun e' he' => ?_⟩
      obtain rfl := Except.error.inj he'
      constructor
      · rintro ⟨d, hd, hrefused⟩
        exact absurd hrefused (hnone' d hd)
      · exact fun h => absurd h hgrant
    change Obeys _ _ (Procedure.ofExcept (requiredString token.accessToken _ _) >>= _) _
    cases haccess : requiredString token.accessToken "access_token" "OAuth refresh response" with
    | error e =>
      exact hfails hgrown hnone₁ (requiredString_error haccess)
    | ok accessToken =>
      change Obeys _ _ (Procedure.ofExcept (refreshedDetails credential token) >>= _) _
      cases hdetails : refreshedDetails credential token with
      | error e =>
        exact hfails hgrown hnone₁ (refreshedDetails_error hdetails)
      | ok _ =>
        intro s₂
        refine ⟨trivial, ?_⟩
        intro s₃
        have hsub : log₁ ⊆ (⟨.read, s₂⟩ :: log₁ : Log Store Operation) := List.subset_cons_self _ _
        have hnone₂ : ∀ d ∈ (⟨.read, s₂⟩ :: log₁ : Log Store Operation), ¬Refused d := by
          intro d hd hrefused
          rcases List.mem_cons.mp hd with rfl | hd
          · obtain ⟨_, _, hop, _⟩ := hrefused
            cases hop
          · exact hnone₁ d hd hrefused
        refine ⟨⟨?_, ⟨credential, ?_, rfl, rfl, _, hsub hrefreshed, rfl⟩, hnone₂⟩, ?_⟩
        · obtain ⟨e, he, hclaimed⟩ := hclaim
          exact ⟨e, hsub (hgrown.subset he), hclaimed⟩
        · obtain ⟨d, hd, hreads⟩ := hread
          exact ⟨d, hsub (hgrown.subset hd), hreads⟩
        · generalize hinput :
            (⟨credential.credentialVersion, claimId, _, _⟩ : RefreshedTokens) = input
          change Obeys _ _ (Procedure.ofExcept
            (.ok (s₃.credentials.any fun c => c.id == credential.id &&
            c.claimedAt input.expectedVersion input.claimId)) >>= _) _
          have hgrown₃ : log.Grown (fun op => ¬op.IsRevocation)
              (⟨.completeProviderCredentialRefresh credential.id input, s₃⟩ :: ⟨.read,
                s₂⟩ :: log₁) :=
            hgrown.trans ((Log.Grown.cons id _ _).trans (.cons id _ _))
          cases hupdated : s₃.credentials.any fun c => c.id == credential.id &&
            c.claimedAt input.expectedVersion input.claimId with
          | true => exact ⟨hgrown₃, fun e he => nomatch he⟩
          | false =>
            refine hfails hgrown₃ ?_ fun ⟨_, _, he⟩ => by simp [oauthError] at he
            intro d hd hrefused
            rcases List.mem_cons.mp hd with rfl | hd
            · obtain ⟨_, _, hop, _⟩ := hrefused
              cases hop
            · exact hnone₂ d hd hrefused

theorem refreshConnectionToken_obeys (credentialId : Id) :
    (refreshConnectionToken credentialId).Obeys Guarantee (fun _ _ => True) [] := by
  intro s₀
  refine ⟨trivial, ?_⟩
  change Obeys _ _ (orThrow (s₀.findCredential credentialId) _ >>= _) _
  cases hfound : s₀.findCredential credentialId with
  | none => exact trivial
  | some credential =>
    have hid : credential.id = credentialId := key_of_lookup hfound
    rw [orThrow_some, done_bind]
    intro s₁
    refine ⟨trivial, ?_⟩
    change Obeys _ _ (ite _ _ _) _
    split
    · exact trivial
    · intro s₂
      refine ⟨trivial, ?_⟩
      intro s₃
      refine ⟨trivial, ?_⟩
      intro s₄
      have hread : ∀ {e : Event Store Operation}, HasRead [e, ⟨.read, s₃⟩, ⟨.generateId, s₂⟩,
          ⟨.read, s₁⟩, ⟨.readCredential credentialId, s₀⟩] credential := by
        intro e
        exact ⟨⟨.readCredential credentialId, s₀⟩, by simp, by rw [hid], by rw [hid]; exact hfound⟩
      have hearlier : ∀ e ∈ ([⟨.read, s₃⟩, ⟨.generateId, s₂⟩, ⟨.read, s₁⟩,
          ⟨.readCredential credentialId, s₀⟩] : Log Store Operation),
          ¬e.operation.IsClaim ∧ ¬Refused e := by
        intro e he
        simp only [List.mem_cons, List.not_mem_nil, or_false] at he
        rcases he with rfl | rfl | rfl | rfl <;>
          exact ⟨id, fun ⟨_, _, hop, _⟩ => Operation.noConfusion hop⟩
      refine ⟨⟨⟨⟨.generateId, s₂⟩, by simp, rfl, rfl⟩, ⟨credential, ?_, rfl, rfl⟩, ?_⟩, ?_⟩
      · obtain ⟨d, hd, hreads⟩ := hread (e := ⟨.read, s₃⟩)
        exact ⟨d, by simpa using hd, hreads⟩
      · exact hearlier
      · generalize hclaim : (⟨credential.id, credential.credentialVersion, s₂.nextId, s₃.now,
          s₃.now + 15000⟩ : RefreshClaim) = claim
        have hevent : s₄.credentials.any (·.claimable claim) = true →
            Claimed ⟨.claimProviderCredentialRefresh claim, s₄⟩ credential.id
              credential.credentialVersion s₂.nextId := by
          intro hclaimable
          subst hclaim
          exact ⟨_, rfl, rfl, rfl, rfl, hclaimable⟩
        change Obeys _ _ (Procedure.ofExcept (.ok (s₄.credentials.any (·.claimable claim))) >>= _) _
        cases hclaimable : s₄.credentials.any (·.claimable claim) with
        | false => exact trivial
        | true =>
          have hclaimed := hevent hclaimable
          refine (only_bind.mpr ⟨⟨rfl, fun _ => trivial⟩, fun _ _ => only_ofExcept _⟩ :
            Only (· = .read) (call (·.clientSecret))).obeys_bind ?_ ?_ fun _ _ _ => trivial
          · rintro log s op rfl
            exact trivial
          · intro log _ hlog _
            have hquiet : ∀ e ∈ log, ¬e.operation.IsRevocation ∧ ¬Refused e := by
              obtain ⟨new, rfl, hnew⟩ := hlog
              intro e he
              simp only [List.mem_append, List.mem_cons, List.not_mem_nil, or_false] at he
              rcases he with he | rfl | rfl | rfl | rfl | rfl
              · rw [hnew e he]
                exact ⟨id, fun ⟨_, _, hop, _⟩ => Operation.noConfusion ((hnew e he).symm.trans hop)⟩
              all_goals exact ⟨id, fun ⟨_, _, hop, _⟩ => Operation.noConfusion hop⟩
            have hmem : ∃ e ∈ log, Claimed e credential.id credential.credentialVersion s₂.nextId :=
              ⟨_, hlog.subset List.mem_cons_self, hclaimed⟩
            have hreads : HasRead log credential := by
              obtain ⟨d, hd, hreads⟩ := hread (e := ⟨.claimProviderCredentialRefresh claim, s₄⟩)
              exact ⟨d, hlog.subset hd, hreads⟩
            refine (exchangeRefreshToken_obeys hmem hreads fun d hd => (hquiet d hd).2).tryCatch
              (fun _ _ _ => trivial) ?_
            intro log' error ⟨hgrown, hrefused⟩
            obtain ⟨e, he, hclaimed'⟩ := hmem
            refine refreshFailed_obeys ⟨e, hgrown.subset he, hclaimed'⟩ (hrefused error rfl) ?_
            obtain ⟨new, rfl, hnew⟩ := hgrown
            intro r hr
            rcases List.mem_append.mp hr with hr | hr
            · exact hnew r hr
            · exact (hquiet r hr).1

theorem only_completeResourceConnectionIntent (state code : String) :
    (completeResourceConnectionIntent state code).Only Operation.IsOther := by
  have hconsume : ∀ now, (Operation.consumeConnectionIntent (sha256 state) now).IsOther :=
    fun _ => trivial
  have hcreate : ∀ authorization credential,
      (Operation.createResourceAuthorization authorization credential).IsOther := fun _ _ => trivial
  have hupsert : ∀ authorizationId input,
      (Operation.upsertProviderCredential authorizationId input).IsOther := fun _ _ => trivial
  simp only [completeResourceConnectionIntent, clock, only_bind, only_look,
    only_commit (hconsume _),
    only_orThrow, only_call, only_ofExcept, only_ensureProviderConnection, true_and]
  intros
  split
  · simp only [only_bind, only_look, true_and]
    intros
    split
    · simp [hupsert]
    · simp [hupsert]
  · simp [hcreate]

theorem program_contract (c : Call) : c.program.Obeys Guarantee (fun _ _ => True) [] := by
  have hother : ∀ {p : Connections Unit}, p.Only Operation.IsOther →
      p.Obeys Guarantee (fun _ _ => True) [] :=
    fun h => h.obeys guarantee_of_isOther (fun _ _ _ _ => trivial) fun _ _ _ => trivial
  cases c with
  | completeResourceConnectionIntent state code =>
    exact hother (only_completeResourceConnectionIntent state code)
  | refreshConnectionToken credentialId => exact refreshConnectionToken_obeys credentialId
  | revokeConnection id =>
    have hrevoke : ∀ now, (Operation.revokeConnection id now).IsOther := fun _ => trivial
    refine hother (only_bind.mpr ⟨only_look _, fun now _ =>
      only_bind.mpr ⟨only_look _, fun active _ => ?_⟩⟩)
    exact only_ite.mpr ⟨fun _ => only_commit (hrevoke now) _, fun _ => trivial⟩
  | revokeProviderConnection id ownerUserId =>
    have hrevoke : (Operation.revokeProviderConnection id ownerUserId).IsOther := trivial
    exact hother (only_bind.mpr ⟨only_commit hrevoke _, fun _ _ => only_require _ _⟩)
  | createConnectionIntent | elapse | outside | administer =>
    exact hother ⟨trivial, fun _ => trivial⟩

end Contract

end FlareAuth.Credentials
