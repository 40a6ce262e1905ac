import FlareAuth.JsonObjects
import FlareAuth.RefreshOutcomes
import FlareAuth.TokenPayloads

/-!
# Introspecting the tokens of an exchange

What a client learns of an access token: the row under its hash, the verifier's answer and the two
compared. The rows that exchanges and refreshes store agree with the payloads that they sign, so a
token is active for its own client exactly as long as it is neither revoked nor expired, and for no
other client.
-/

namespace FlareAuth.TokenExchange

open Concurrent Procedure Access Relational FlareAuth.TokenExchange.Repository

def subjectClaimsMember : String := "urn:realmroot:params:oauth:token-exchange:subject-claims"

def opaqueAccessTokenPrefix : String := "fatx_"

/-- What the verifier of signed tokens answers at a time, of a token for an issuer and an
audience. -/
abbrev JwtVerifier := Json → String → String → ℕ → Except Failure Json

/-- A signed token is its payload; an opaque one is a text. -/
def isOpaque : Json → Bool
  | .string token => token.startsWith opaqueAccessTokenPrefix
  | _ => false

/-- `===` of two values of different objects. -/
def strictEquals : Option Json → Option Json → Bool
  | some (.object _), _ => false
  | some (.array _), _ => false
  | a, b => a == b

def Site.findAccessTokenByHash (s : Site) (tokenHash : Digest Json) : Option AccessTokenRow :=
  s.accessTokens.find? fun t => t.tokenHash = tokenHash

def tokenExchangeJwtMatches (payload : Json) (row : AccessTokenRow) (issuer : String) : Bool :=
  if payload.field "iss" ≠ some (.string issuer) ∨
      payload.field "sub" ≠ some (.string row.grant.subject) ∨
      payload.field "aud" ≠ some (.string row.grant.audience) ∨
      payload.field "client_id" ≠ some (.string row.grant.clientId) ∨
      payload.field "scope" ≠ some (.string (Text.join row.grant.scopes)) ∨
      payload.field "exp" ≠ some (number (row.expiresAt / 1000)) then false
  else
    let expectedTenant := row.grant.claims.field realmrootOrganizationClaim
    payload.field "act" = none &&
      strictEquals (payload.field realmrootOrganizationClaim) expectedTenant

def inactive : Json := .object [("active", .bool false)]

def activePayload : Json → Json
  | .object fields =>
    .object (Fields.spread fields [("active", .bool true), ("token_type", .string "Bearer")])
  | _ => .object [("active", .bool true), ("token_type", .string "Bearer")]

/-- `createdAt` gives the time at which a row was created, which nothing else reads. -/
def opaqueResponse (createdAt : Id → ℕ) (row : AccessTokenRow) (issuer : String) : Json :=
  .object [("active", .bool true), ("iss", .string issuer), ("sub", .string row.grant.subject),
    ("aud", .string row.grant.audience), ("client_id", .string row.grant.clientId),
    ("scope", .string (Text.join row.grant.scopes)), ("exp", number (row.expiresAt / 1000)),
    ("iat", number (createdAt row.id / 1000)), ("token_type", .string "Bearer"),
    (subjectClaimsMember, row.grant.claims)]

def introspectToken (createdAt : Id → ℕ) (token : Json) (client : ClientCredentials)
    (issuer : String) (verifier : JwtVerifier) : Exchange Json := do
  let _ ← authenticateApplicationClient client
  let found ← ask (·.findAccessTokenByHash (sha256 token))
  let now ← onAccess clock
  match found with
  | some row =>
    if row.grant.clientId = client.clientId ∧ row.revokedAt = none ∧ now < row.expiresAt then
      if !isOpaque token then
        match verifier token issuer row.grant.audience now with
        | .ok payload =>
          if !tokenExchangeJwtMatches payload row issuer then return inactive
          else return activePayload payload
        | .error _ => return inactive
      else return opaqueResponse createdAt row issuer
    else return inactive
  | none => return inactive

def isTokenExchangeAccessToken (token : Json) : Exchange Bool := do
  if isOpaque token then return true
  else
    let found ← ask (·.findAccessTokenByHash (sha256 token))
    return found.isSome

section Described

structure AccessTokenInput.Describes (i : AccessTokenInput) (row : AccessTokenRow) : Prop where
  tokenHash : row.tokenHash = sha256 i.payload
  clientId : i.clientId = row.grant.clientId
  subject : i.subject = row.grant.subject
  audience : i.audience = row.grant.audience
  scopes : i.scopes = row.grant.scopes
  organization : i.organization = row.grant.claims.field realmrootOrganizationClaim
  tenant : ∃ organizationId, i.organization = some (.string organizationId)
  actor : i.actor = none
  expiresAt : i.expiresAt = row.expiresAt

theorem AccessTokenInput.Describes.persists {i : AccessTokenInput} {t u : AccessTokenRow}
    (h : i.Describes t) (hpersists : t.Persists u) : i.Describes u := by
  rw [hpersists.columns]
  exact ⟨h.tokenHash, h.clientId, h.subject, h.audience, h.scopes, h.organization,
    h.tenant, h.actor,
    h.expiresAt⟩

/-- What an operation is about to store is described by a payload. -/
def SiteOperation.Described (op : SiteOperation) : Prop :=
  ∀ row, op.storedAccessToken = some row → ∃ i : AccessTokenInput, i.Describes row

theorem described_of_quiet {op : SiteOperation} (h : op.Quiet) : op.Described := by
  intro row hrow
  rw [h.stores_no_access] at hrow
  cases hrow

abbrev Exchange.Described {α : Type} (p : Exchange α) : Prop := p.Only SiteOperation.Described

theorem described_quiet {α : Type} {p : Exchange α} (h : p.Quiet) : p.Described :=
  h.mono fun _ => described_of_quiet

theorem described_issueRefreshToken (familyId : Id) (grant : TokenGrant) :
    (issueRefreshToken familyId grant).Described := by
  have hstores : ∀ row, (storeRefreshToken row).Described := by
    intro row
    have hinsert : (SiteOperation.insertRefreshToken row).Described := fun _ h => by cases h
    simp only [storeRefreshToken, commit, ask, only_bind, only_step, only_ofExcept, only_query]
    refine ⟨⟨hinsert, fun _ => trivial⟩,
      fun _ _ => ⟨described_of_quiet trivial, fun revoked _ => ?_⟩⟩
    split
    · exact described_quiet (by simp [SiteOperation.Quiet])
    · trivial
  simp only [issueRefreshToken, only_bind]
  exact ⟨described_quiet (by simp), fun _ _ => ⟨hstores _, fun _ _ =>
    ⟨described_quiet (by simp), fun _ _ => trivial⟩⟩⟩

theorem described_exchangeFederatedToken (input : TokenExchangeRequest) (client : ClientCredentials)
    (issuer : String) : (exchangeFederatedToken input client issuer).Described := by
  simp only [exchangeFederatedToken, only_bind]
  refine ⟨described_quiet (by simp), fun ⟨oauthClient, application⟩ _ => ?_⟩
  refine ⟨described_quiet (by simp), fun _ _ => ?_⟩
  refine ⟨described_quiet (by simp), fun ⟨credential, subject, scopes, exp⟩ _ => ?_⟩
  refine ⟨described_quiet (by simp), fun now _ => ⟨described_quiet (by simp), fun jti _ => ?_⟩⟩
  refine ⟨described_quiet (by simp), fun id _ => ⟨?_, fun _ _ => ?_⟩⟩
  · simp only [commit, only_step, only_ofExcept, implies_true, and_true]
    rintro row ⟨⟩
    refine ⟨_, rfl, rfl, rfl, rfl, rfl, ?_, ⟨_, rfl⟩, rfl, rfl⟩
    simp [Json.field]
  · split
    · rw [only_bind]
      refine ⟨described_quiet (by simp), fun familyId _ => only_bind.mpr ⟨?_, fun _ _ => trivial⟩⟩
      exact only_map.mpr (described_issueRefreshToken familyId _)
    · trivial

/-- The credential of a refresh token is eligible only in the tenant that the token names. -/
theorem tenant_of_eligible {row : RefreshTokenRow} {clientId : String}
    (h : (eligibleCredential row clientId).Returns true) :
    ∃ organizationId, row.grant.claims.field realmrootOrganizationClaim =
      some (.string organizationId) := by
  unfold eligibleCredential at h
  simp only [returns_bind] at h
  obtain ⟨_, _, credential, _, hreturns⟩ := h
  split at hreturns
  · cases hreturns
  · rename_i hsame
    rw [not_or, not_not, not_not] at hsame
    exact ⟨_, hsame.2⟩

theorem described_prepareRotation {row : RefreshTokenRow} {clientId issuer : String}
    {scopes : List String} {now : ℕ} {token : String} {accessToken : Json} {r : Rotation}
    (htenant : ∃ organizationId, row.grant.claims.field realmrootOrganizationClaim =
      some (.string organizationId))
    (h : (prepareRotation row clientId issuer scopes now).Returns (token, accessToken, r)) :
    (SiteOperation.rotateRefreshToken r).Described := by
  simp only [prepareRotation, returns_bind] at h
  obtain ⟨jti, _, _, _, id, _, rotatedAt, _, hreturns⟩ := h
  cases hreturns
  rintro _ ⟨⟩
  exact ⟨_, rfl, rfl, rfl, rfl, rfl, rfl, htenant, rfl, rfl⟩

theorem described_refreshToken (input : TokenRefreshRequest) (client : ClientCredentials)
    (issuer : String) : (refreshToken input client issuer).Described := by
  simp only [refreshToken, only_bind]
  refine ⟨described_quiet (by simp), fun ⟨oauthClient, application, row, now⟩ _ => ?_⟩
  dsimp only
  split
  · exact described_quiet (by simp)
  rw [only_bind]
  refine ⟨described_quiet (by simp), fun _ _ => ?_⟩
  rw [only_bind]
  refine ⟨described_quiet (by simp), fun eligible heligible => ?_⟩
  split
  · exact described_quiet (by simp)
  rename_i htrue
  rw [Bool.not_eq_true, Bool.not_eq_false'] at htrue
  subst htrue
  simp only [only_bind]
  refine ⟨described_quiet (by simp), fun scopes _ =>
    ⟨described_quiet (by simp [prepareRotation]), ?_⟩⟩
  rintro ⟨token, accessToken, r⟩ hreturns
  refine ⟨?_, fun stored _ => ?_⟩
  · simp only [commit, only_step, only_ofExcept, implies_true, and_true]
    exact described_prepareRotation (tenant_of_eligible heligible) hreturns
  · split
    · trivial
    · exact described_quiet (by simp)

variable [Locale]

theorem program_described (call : Call) : call.program.Only SiteOperation.Described := by
  cases call with
  | exchangeToken input client issuer =>
    exact only_bind.mpr ⟨described_exchangeFederatedToken input client issuer, fun _ _ => trivial⟩
  | refreshToken input client issuer =>
    exact only_bind.mpr ⟨described_refreshToken input client issuer, fun _ _ => trivial⟩
  | access call => exact only_bind.mpr ⟨described_quiet (quiet_onAccess _), fun _ _ => trivial⟩
  | createResourceConnectionIntent resourceId input actorUserId =>
    exact only_bind.mpr ⟨described_quiet (quiet_createResourceConnectionIntent _ _ _),
      fun _ _ => trivial⟩
  | completeResourceConnectionIntent state provider =>
    exact only_bind.mpr ⟨described_quiet (quiet_completeResourceConnectionIntent _ _),
      fun _ _ => trivial⟩
  | failResourceConnectionIntent state =>
    refine only_bind.mpr ⟨described_quiet ?_, fun _ _ => trivial⟩
    simp [failResourceConnectionIntent, quiet_consumeResourceConnectionIntent]
  | createFederatedCredential applicationId input =>
    exact only_bind.mpr ⟨described_quiet (quiet_createFederatedCredential _ _), fun _ _ => trivial⟩
  | updateFederatedCredential applicationId id patch keys =>
    exact only_bind.mpr ⟨described_quiet (quiet_updateFederatedCredential _ _ _ _),
      fun _ _ => trivial⟩
  | clients rows => exact ⟨described_of_quiet trivial, fun _ => trivial⟩
  | applications rows => exact ⟨described_of_quiet trivial, fun _ => trivial⟩

theorem described_of_reachable {ok : ExchangePool → Move Call → Prop} {pool : ExchangePool}
    (h : ExchangeReachable ok pool) :
    ∀ row ∈ pool.store.accessTokens, ∃ i : AccessTokenInput, i.Describes row := by
  refine h.keeps (I := fun s => ∀ row ∈ s.accessTokens, ∃ i : AccessTokenInput, i.Describes row)
    (fun s hs => by simp [hs.accessTokens]) fun pool i t op hpool _ hpending ih row hrow => ?_
  rw [apply_eq] at hrow
  rcases addsOnly_perform op pool.store row hrow with ⟨row₀, hrow₀, hpersists⟩ | ⟨r, hr, hpersists⟩
  · obtain ⟨i, hi⟩ := ih row₀ hrow₀
    exact ⟨i, hi.persists hpersists⟩
  · obtain ⟨i, hi⟩ := 
      hpool.pending_only (C := fun _ => True) (fun _ _ _ => trivial)
        (fun c _ => program_described c) hpending r hr
    exact ⟨i, hi.persists hpersists⟩

end Described

section Hashes

def Site.AccessHashesUnique (s : Site) : Prop := (s.accessTokens.map (·.tokenHash)).Nodup

/-- The second store has unique hashes if the first one has. -/
def Site.KeepsHashes (s t : Site) : Prop := s.AccessHashesUnique → t.AccessHashesUnique

variable {s t : Site}

theorem Site.KeepsHashes.of_eq (h : t.accessTokens = s.accessTokens) : s.KeepsHashes t := by
  intro hs
  rwa [AccessHashesUnique, h]

theorem Site.KeepsHashes.refl (s : Site) : s.KeepsHashes s := .of_eq rfl

theorem keepsHashes_insertAccessToken (row : AccessTokenRow) :
    Batch.Within Site.KeepsHashes (insertAccessToken row) := by
  intro s x t ht hs
  by_cases hadmits : s.AdmitsAccessToken row
  · rw [insertAccessToken_of_admits hadmits] at ht
    cases ht
    exact nodup_map_append_singleton hs fun u hu => (hadmits.2 u hu).2
  · obtain ⟨e, he⟩ := insertAccessToken_error hadmits
    rw [he] at ht
    cases ht

theorem keepsHashes_insertRefreshToken (row : RefreshTokenRow) :
    Batch.Within Site.KeepsHashes (insertRefreshToken row) := by
  intro s x t ht
  by_cases hadmits : s.AdmitsRefreshToken row
  · rw [insertRefreshToken_of_admits hadmits] at ht
    cases ht
    exact .of_eq rfl
  · obtain ⟨e, he⟩ := insertRefreshToken_error hadmits
    rw [he] at ht
    cases ht

theorem keepsHashes_perform (op : SiteOperation) (s : Site) : s.KeepsHashes (op.perform s) := by
  have hsettle : ∀ {α : Type} {b : SiteBatch α}, Batch.Within Site.KeepsHashes b →
      s.KeepsHashes (b.settle s) := fun h => h.settle .refl s
  have htrans : ∀ s t u : Site, s.KeepsHashes t → t.KeepsHashes u → s.KeepsHashes u :=
    fun _ _ _ h h' hs => h' (h hs)
  cases op with
  | storeAccessToken row => exact hsettle (keepsHashes_insertAccessToken row)
  | insertRefreshToken row => exact hsettle (keepsHashes_insertRefreshToken row)
  | rotateRefreshToken r =>
    exact hsettle (within_rotateRefreshToken .refl htrans (keepsHashes_insertRefreshToken _)
      (fun _ => .of_eq rfl) (keepsHashes_insertAccessToken _))
  | access op =>
    change s.KeepsHashes (if op.keepsResources then
      ({ s.cascade op with access := op.perform s.access } : Site) else s)
    split
    · cases op with
      | deleteResource id now audit => exact nodup_map_updateWhere fun _ _ => rfl
      | _ => exact .of_eq rfl
    · exact .refl s
  | createFederatedCredential input =>
    refine hsettle fun s x t ht => ?_
    unfold Repository.createFederatedCredential at ht
    split at ht <;> cases ht
    exact .of_eq rfl
  | createConnectionIntent input =>
    refine hsettle fun s x t ht => ?_
    unfold Repository.createConnectionIntent at ht
    split at ht
    · cases ht
      exact .refl s
    · split at ht <;> cases ht
      exact .of_eq rfl
  | _ => exact .of_eq rfl

theorem accessHashesUnique_of_reachable [Locale] {ok : ExchangePool → Move Call → Prop}
    {pool : ExchangePool} (h : ExchangeReachable ok pool) : pool.store.AccessHashesUnique := by
  refine h.keeps (I := Site.AccessHashesUnique) (fun s hs => ?_) fun pool i t op _ _ _ ih => ?_
  · rw [Site.AccessHashesUnique, hs.accessTokens]
    exact List.nodup_nil
  · rw [apply_eq]
    exact keepsHashes_perform op pool.store ih

end Hashes

section Answers

variable {s : Site} {client : ClientCredentials} {verifier : JwtVerifier} {i : AccessTokenInput}
  {row : AccessTokenRow} {issuer : String} {createdAt : Id → ℕ}

/-- The verifier accepts the tokens that the store knows: for the issuer and the audience that they
name and until they expire, with the payload that was signed. -/
def JwtVerifier.Verifies (verifier : JwtVerifier) (s : Site) : Prop :=
  ∀ i : AccessTokenInput, (∃ row ∈ s.accessTokens, row.tokenHash = sha256 i.payload) →
    ∀ issuer audience now,
      if issuer = i.issuer ∧ audience = i.audience ∧ now / 1000 < i.expiresAt / 1000 then
        verifier i.payload issuer audience now = .ok i.payload
      else ∃ e, verifier i.payload issuer audience now = .error e

/-- A token lives until it is revoked or the second in which it expires begins. -/
def AccessTokenRow.isLive (row : AccessTokenRow) (now : ℕ) : Prop :=
  row.revokedAt = none ∧ now / 1000 < row.expiresAt / 1000

instance (row : AccessTokenRow) (now : ℕ) : Decidable (row.isLive now) :=
  inferInstanceAs (Decidable (_ ∧ _))

theorem jwtMatches_of_describes (h : i.Describes row) :
    tokenExchangeJwtMatches i.payload row i.issuer = true := by
  obtain ⟨organizationId, htenant⟩ := h.tenant
  have hclaims : row.grant.claims.field realmrootOrganizationClaim =
      some (.string organizationId) :=
    h.organization.symm.trans htenant
  rw [tokenExchangeJwtMatches, hclaims]
  simp [h.subject, h.audience, h.clientId, h.scopes, h.expiresAt, h.actor, htenant, strictEquals]

theorem findAccessTokenByHash_of_mem (hunique : s.AccessHashesUnique) (hrow : row ∈ s.accessTokens)
    (h : i.Describes row) : s.findAccessTokenByHash (sha256 i.payload) = some row := by
  have hsome : (s.findAccessTokenByHash (sha256 i.payload)).isSome = true :=
    List.find?_isSome.mpr ⟨row, hrow, by simp [h.tokenHash]⟩
  obtain ⟨u, hu⟩ := Option.isSome_iff_exists.mp hsome
  have hhash : u.tokenHash = sha256 i.payload := by simpa using List.find?_some hu
  rw [hu, eq_of_key_eq hunique (List.mem_of_find?_eq_some hu) hrow (hhash.trans h.tokenHash.symm)]

theorem isTokenExchangeAccessToken_of_describes (hunique : s.AccessHashesUnique)
    (hrow : row ∈ s.accessTokens) (h : i.Describes row) :
    (isTokenExchangeAccessToken i.payload).exec s = (.ok true, s) := by
  change ((.ok (s.findAccessTokenByHash (sha256 i.payload)).isSome : Except Failure Bool), s) = _
  rw [findAccessTokenByHash_of_mem hunique hrow h]
  rfl

def SiteOperation.LeavesAlone (op : SiteOperation) : Prop := ∀ s : Site, apply op s = s

def Authenticates (client : ClientCredentials) (s : Site) : Prop :=
  ∃ a, ((authenticateApplicationClient client).exec s).1 = .ok a

theorem authenticateApplicationClient_exec {a : OAuthClient × Application}
    (h : ((authenticateApplicationClient client).exec s).1 = .ok a) :
    (authenticateApplicationClient client).exec s = (.ok a, s) := by
  have hreads : (authenticateApplicationClient client).Only SiteOperation.LeavesAlone := by
    have hread : SiteOperation.read.LeavesAlone := fun _ => rfl
    have hlook : (SiteOperation.access (.read .directory)).LeavesAlone := fun _ => rfl
    simp only [authenticateApplicationClient, only_bind, only_orThrow, only_require, true_and]
    refine fun _ _ => ⟨⟨hread, fun _ => trivial⟩, fun _ _ => ⟨⟨hread, fun _ => trivial⟩, ?_⟩⟩
    exact fun _ _ _ _ _ _ => ⟨⟨hlook, fun _ => trivial⟩, fun _ _ _ _ _ _ => trivial⟩
  exact Prod.ext h (hreads.exec (fun op hop => hop) s)

/-- The answer on a known token, once the client is authenticated. -/
theorem introspectToken_of_describes (hunique : s.AccessHashesUnique) (hrow : row ∈ s.accessTokens)
    (h : i.Describes row) (hverifies : verifier.Verifies s) (hclient : Authenticates client s) :
    (introspectToken createdAt i.payload client issuer verifier).exec s =
      (.ok (if client.clientId = row.grant.clientId ∧ issuer = i.issuer ∧ row.isLive s.access.now
        then activePayload i.payload else inactive), s) := by
  obtain ⟨a, hclient⟩ := hclient
  have hopaque : isOpaque i.payload = false := rfl
  have hfound : (ask (·.findAccessTokenByHash (sha256 i.payload)) : Exchange _).exec s =
      (.ok (some row), s) := by
    rw [← findAccessTokenByHash_of_mem hunique hrow h]
    rfl
  have hclock : (onAccess clock : Exchange ℕ).exec s = (.ok s.access.now, s) := rfl
  have hanswer := hverifies i ⟨row, hrow, h.tokenHash⟩ issuer row.grant.audience s.access.now
  rw [introspectToken, exec_bind_ok _ (authenticateApplicationClient_exec hclient),
    exec_bind_ok _ hfound, exec_bind_ok _ hclock]
  dsimp only
  by_cases hcolumns : row.grant.clientId = client.clientId ∧ row.revokedAt = none ∧
      s.access.now < row.expiresAt
  · rw [if_pos hcolumns, hopaque, if_pos Bool.not_false]
    obtain ⟨hmine, hrevoked, _⟩ := hcolumns
    by_cases hvalid : issuer = i.issuer ∧ s.access.now / 1000 < i.expiresAt / 1000
    · obtain ⟨rfl, hnow⟩ := hvalid
      rw [if_pos ⟨rfl, h.audience.symm, hnow⟩] at hanswer
      rw [if_pos ⟨hmine.symm, rfl, hrevoked, h.expiresAt ▸ hnow⟩]
      rw [hanswer]
      dsimp only
      rw [jwtMatches_of_describes h]
      rfl
    · rw [if_neg fun hall => hvalid ⟨hall.1, hall.2.2⟩] at hanswer
      obtain ⟨e, he⟩ := hanswer
      rw [if_neg fun hall => hvalid ⟨hall.2.1, h.expiresAt ▸ hall.2.2.2⟩]
      rw [he]
      rfl
  · rw [if_neg hcolumns, if_neg]
    · rfl
    rintro ⟨hmine, _, hrevoked, hseconds⟩
    exact hcolumns ⟨hmine.symm, hrevoked, by omega⟩

end Answers

section Runs

variable [Locale] {ok : ExchangePool → Move Call → Prop} {pool : ExchangePool}
  {verifier : JwtVerifier} {row : AccessTokenRow}

/-- A token that was revoked or had expired at an earlier moment is not live again. -/
theorem not_live_of_earlier (h : ExchangeReachable ok pool) (hrow : row ∈ pool.store.accessTokens)
    {s : Site} (hs : s ∈ pool.history) {earlier : AccessTokenRow}
    (hearlier : earlier ∈ s.accessTokens)
    (hsame : earlier.tokenHash = row.tokenHash) (hdead : ¬earlier.isLive s.access.now) :
    ¬row.isLive pool.store.access.now := by
  have hpersists : s.Persists pool.store := h.evolves_history persists_evolution s hs
  obtain ⟨u, hu, hkept⟩ := hpersists.accessTokens.exists_of_mem hearlier
  obtain rfl : u = row := eq_of_key_eq (accessHashesUnique_of_reachable h) hu hrow
    (hkept.tokenHash.trans hsame)
  rintro ⟨hrevoked, hnow⟩
  have hexpires : u.expiresAt = earlier.expiresAt := by rw [hkept.columns]
  refine hdead ⟨?_, ?_⟩
  · by_contra hsome
    have hlater := hkept.revoked (Option.isSome_iff_ne_none.mpr hsome)
    rw [hrevoked] at hlater
    cases hlater
  · have hclock := hpersists.access.now
    rw [hexpires] at hnow
    omega

/-- Introspection agrees with issuance. A stored token is known as one of an exchange and active for
its own client exactly while it lives, with the claims that were signed, which are those of its row,
and inactive for any other; what has once ended stays inactive. -/
theorem introspection_agrees (h : ExchangeReachable ok pool) (hrow : row ∈ pool.store.accessTokens)
    (hverifies : verifier.Verifies pool.store) :
    ∃ i : AccessTokenInput, i.Describes row ∧
      (isTokenExchangeAccessToken i.payload).exec pool.store = (.ok true, pool.store) ∧
      (∀ client createdAt issuer, Authenticates client pool.store →
        (introspectToken createdAt i.payload client issuer verifier).exec pool.store =
          (.ok (if client.clientId = row.grant.clientId ∧ issuer = i.issuer ∧
            row.isLive pool.store.access.now then activePayload i.payload else inactive),
            pool.store)) ∧
      ∀ s ∈ pool.history, ∀ earlier ∈ s.accessTokens, earlier.tokenHash = row.tokenHash →
        ¬earlier.isLive s.access.now → ¬row.isLive pool.store.access.now := by
  obtain ⟨i, hi⟩ := described_of_reachable h row hrow
  have hunique := accessHashesUnique_of_reachable h
  refine ⟨i, hi, isTokenExchangeAccessToken_of_describes hunique hrow hi,
    fun client createdAt issuer hclient => ?_,
    fun s hs earlier hearlier hsame hdead => not_live_of_earlier h hrow hs hearlier hsame hdead⟩
  exact introspectToken_of_describes hunique hrow hi hverifies hclient

end Runs

namespace Sample

/-- The signed claims of the sample's exchange. -/
def issued : AccessTokenInput :=
  ⟨"iss", "app", "job", "https://notes", ["read", "offline_access"], some (.string "o"), none, 0,
    100000, "id-0"⟩

/-- A verifier that has the sample's token signed. -/
def verifier : JwtVerifier := fun token issuer audience now =>
  if token = issued.payload ∧ issuer = "iss" ∧ audience = "https://notes" ∧ now / 1000 < 100 then
    .ok token
  else .error (.error "JWT payload is unavailable.")

theorem verifier_verifies {s : Site}
    (h : ∀ row ∈ s.accessTokens, row.tokenHash = sha256 issued.payload) : verifier.Verifies s := by
  rintro i ⟨row, hrow, hhash⟩ issuer audience now
  have hsame : i.payload = issued.payload := Digest.mk.inj (hhash.symm.trans (h row hrow))
  have hissuer : i.issuer = "iss" := by
    simpa [issued] using congrArg (Json.field · "iss") hsame
  have haudience : i.audience = "https://notes" := by
    simpa [issued] using congrArg (Json.field · "aud") hsame
  have hexpires : i.expiresAt / 1000 = 100 := by
    have hfield := congrArg (Json.field · "exp") hsame
    simp only [AccessTokenInput.field_exp, Option.some.injEq] at hfield
    exact number_inj hfield
  rw [hissuer, haudience, hexpires, hsame]
  by_cases hvalid : issuer = "iss" ∧ audience = "https://notes" ∧ now / 1000 < 100
  · rw [if_pos hvalid, verifier, if_pos ⟨rfl, hvalid⟩]
  · rw [if_neg hvalid, verifier, if_neg fun hall => hvalid hall.2]
    exact ⟨_, rfl⟩

/-- The store holds the sample's token, and its client can authenticate itself. -/
def holdsIssued (s : Site) : Bool :=
  s.accessTokens.map (·.tokenHash) == [sha256 issued.payload] &&
    s.accessTokens.all (fun t => t.isLive s.access.now && t.grant.clientId == "app") &&
    match ((authenticateApplicationClient credentials).exec s).1 with
    | .ok _ => true
    | .error _ => false

set_option maxRecDepth 10000 in
theorem introspection_agreed : ∃ pool : ExchangePool,
    ((introspectToken (fun _ => 0) issued.payload credentials "iss" verifier).exec pool.store).1 =
      .ok (activePayload issued.payload) := by
  have hrun : (run (Move.alone 0 (.exchangeToken exchange credentials "iss") 19)).any
      (fun pool => holdsIssued pool.store) = true := by decide +kernel
  obtain ⟨pool, hpool, hcheck⟩ := reachable_of_run hrun
  obtain ⟨hrows, hclient⟩ := Bool.and_eq_true_iff.mp hcheck
  obtain ⟨hhashes, hlive⟩ := Bool.and_eq_true_iff.mp hrows
  have hauthenticates : Authenticates credentials pool.store := by
    split at hclient
    · rename_i a ha
      exact ⟨a, ha⟩
    · cases hclient
  have hhashes : pool.store.accessTokens.map (·.tokenHash) = [sha256 issued.payload] := by
    simpa using hhashes
  have hhash : ∀ row ∈ pool.store.accessTokens, row.tokenHash = sha256 issued.payload := by
    intro row hrow
    simpa [hhashes] using List.mem_map_of_mem (f := (·.tokenHash)) hrow
  obtain ⟨row, hrow, _⟩ := List.mem_map.mp (hhashes ▸ List.mem_singleton_self _ :
    sha256 issued.payload ∈ pool.store.accessTokens.map (·.tokenHash))
  obtain ⟨i, hi, _, hanswers, _⟩ := introspection_agrees hpool hrow (verifier_verifies hhash)
  have hsame : i.payload = issued.payload :=
    Digest.mk.inj (hi.tokenHash.symm.trans (hhash row hrow))
  have hissuer : i.issuer = "iss" := by
    simpa [issued] using congrArg (Json.field · "iss") hsame
  have hactive := List.all_eq_true.mp hlive row hrow
  simp only [Bool.and_eq_true, decide_eq_true_eq, beq_iff_eq] at hactive
  refine ⟨pool, ?_⟩
  have hanswer := hanswers credentials (fun _ => 0) "iss" hauthenticates
  rw [if_pos ⟨hactive.2.symm, hissuer.symm, hactive.1⟩, hsame] at hanswer
  rw [hanswer]

end Sample

end FlareAuth.TokenExchange
