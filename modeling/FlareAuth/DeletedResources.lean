import FlareAuth.LiveResources
import FlareAuth.TokenRotation

/-!
# Authority on a deleted Resource Server

The deletion of a Resource Server ends everything that is alive on it in one
batch. Most writers insert under a guard that still finds the resource; direct
grants and exchanged tokens have no such guard, and what they write after the
deletion stays alive.
-/

namespace FlareAuth.TokenExchange

open Concurrent Relational

/-- An exchanged token is for the audience of the credential that it was issued under. -/
def Site.HasAudience (s : Site) (credentialId resourceId : Id) : Prop :=
  ∃ c ∈ s.federatedCredentials, c.id = credentialId ∧ c.audienceResourceId = resourceId

def Site.LiveToken (s : Site) (credentialId : Id) : Prop :=
  (∃ t ∈ s.accessTokens, t.grant.credentialId = credentialId ∧ t.revokedAt = none) ∨
    ∃ t ∈ s.refreshTokens, t.grant.credentialId = credentialId ∧ t.revokedAt = none

structure Site.NoLiveAuthority (s : Site) (id : Id) : Prop where
  entitlements : ∀ e ∈ s.access.entitlements, e.resourceServerId = id → e.ended.isSome
  leases : ∀ l ∈ s.access.leases, ∀ r ∈ s.access.requests, r.id = l.requestId →
    r.resourceId = id → l.revokedAt.isSome
  requests : ∀ r ∈ s.access.requests, r.resourceId = id → r.status ≠ .pending
  intents : ∀ i ∈ s.connectionIntents, i.resourceId = id → i.status ≠ .pending
  accessTokens : ∀ t ∈ s.accessTokens, s.HasAudience t.grant.credentialId id → t.revokedAt.isSome
  refreshTokens : ∀ t ∈ s.refreshTokens, s.HasAudience t.grant.credentialId id → t.revokedAt.isSome

def Site.LiveAudience (s : Site) (credentialId : Id) : Prop :=
  ∀ id, s.HasAudience credentialId id → s.access.directory.Live id

/-- The writes without a guard of their own find their Resource Server not deleted. -/
def LandsOnLive (s : Site) : SiteOperation → Prop
  | .access op => ∀ e, op.directGrant = some e → s.access.directory.Live e.resourceServerId
  | .storeAccessToken row => s.LiveAudience row.grant.credentialId
  | .insertRefreshToken row => s.LiveAudience row.grant.credentialId
  | .updateFederatedCredential _ id patch => s.LiveToken id →
      ∀ resourceId, patch.audienceResourceId = some resourceId → s.access.directory.Live resourceId
  | _ => True

theorem Site.noLiveAuthority_of_tokens {s : Site} {id : Id}
    (h : ∀ credentialId, s.LiveToken credentialId → ¬s.HasAudience credentialId id) :
    (∀ t ∈ s.accessTokens, s.HasAudience t.grant.credentialId id → t.revokedAt.isSome) ∧
      ∀ t ∈ s.refreshTokens, s.HasAudience t.grant.credentialId id → t.revokedAt.isSome := by
  constructor
  · intro t ht haudience
    by_contra hnone
    rw [Option.not_isSome_iff_eq_none] at hnone
    exact h _ (.inl ⟨t, ht, rfl, hnone⟩) haudience
  · intro t ht haudience
    by_contra hnone
    rw [Option.not_isSome_iff_eq_none] at hnone
    exact h _ (.inr ⟨t, ht, rfl, hnone⟩) haudience

theorem Site.NoLiveAuthority.tokens {s : Site} {id : Id} (h : s.NoLiveAuthority id)
    {credentialId : Id} (hlive : s.LiveToken credentialId) : ¬s.HasAudience credentialId id := by
  intro haudience
  rcases hlive with ⟨t, ht, rfl, hnone⟩ | ⟨t, ht, rfl, hnone⟩
  · have hrevoked := h.accessTokens t ht haudience
    rw [hnone] at hrevoked
    cases hrevoked
  · have hrevoked := h.refreshTokens t ht haudience
    rw [hnone] at hrevoked
    cases hrevoked

/-- The references that the sweep relies on, and its result on every Resource Server that is not
there or is deleted. -/
structure Site.Swept (s : Site) : Prop where
  valid : s.Valid
  leaseRequests : s.access.LeasesRequested
  cleared : ∀ id, ¬s.access.directory.Live id → s.NoLiveAuthority id

section Access

variable {s : Site} {op : Operation}

/-- The store after an operation of agent access. -/
theorem perform_access (hkeeps : op.keepsResources = true) :
    (SiteOperation.access op).perform s = { s.cascade op with access := op.perform s.access } := by
  change (if op.keepsResources then ({ s.cascade op with access := op.perform s.access } : Site)
    else s) = _
  rw [if_pos hkeeps]

end Access

section Tokens

variable {s t : Site} {credentialId id : Id}

/-- Tokens that were only revoked or consumed since. -/
theorem Site.LiveToken.earlier (h : t.LiveToken credentialId)
    (haccess : ∀ u ∈ t.accessTokens, ∃ u₀ ∈ s.accessTokens, u₀.Persists u)
    (hrefresh : ∀ u ∈ t.refreshTokens, ∃ u₀ ∈ s.refreshTokens, u₀.Persists u) :
    s.LiveToken credentialId := by
  rcases h with ⟨u, hu, rfl, hnone⟩ | ⟨u, hu, rfl, hnone⟩
  · obtain ⟨u₀, hu₀, hpersists⟩ := haccess u hu
    refine .inl ⟨u₀, hu₀, congrArg (·.credentialId) hpersists.grant.symm, ?_⟩
    by_contra hsome
    have hrevoked := hpersists.revoked (Option.ne_none_iff_isSome.mp hsome)
    rw [hnone] at hrevoked
    cases hrevoked
  · obtain ⟨u₀, hu₀, hpersists⟩ := hrefresh u hu
    refine .inr ⟨u₀, hu₀, congrArg (·.credentialId) hpersists.grant.symm, ?_⟩
    by_contra hsome
    have hrevoked := hpersists.revoked (Option.ne_none_iff_isSome.mp hsome)
    rw [hnone] at hrevoked
    cases hrevoked

theorem Site.LiveToken.hasCredential (h : s.LiveToken credentialId) (hvalid : s.Valid) :
    s.hasCredential credentialId = true := by
  rcases h with ⟨u, hu, rfl, _⟩ | ⟨u, hu, rfl, _⟩
  · exact hvalid.accessCredentials u hu
  · exact hvalid.refreshCredentials u hu

theorem mem_updateWhere_persists {p : RefreshTokenRow → Bool} {now : ℕ}
    {rows : List RefreshTokenRow}
    {u : RefreshTokenRow} (h : u ∈ updateWhere p (fun t => { t with revokedAt := some now }) rows) :
    ∃ u₀ ∈ rows, u₀.Persists u := by
  obtain ⟨u₀, hu₀, rfl⟩ := mem_updateWhere.mp h
  refine ⟨u₀, hu₀, ?_⟩
  split
  · exact ⟨rfl, fun h => h, fun _ => rfl⟩
  · exact .refl u₀

theorem liveToken_access {op : Operation}
    (h : (s.cascade op).LiveToken credentialId) : s.LiveToken credentialId := by
  cases op with
  | deleteResource id now audit =>
    refine h.earlier (fun u hu => ?_) fun u hu => mem_updateWhere_persists hu
    obtain ⟨u₀, hu₀, rfl⟩ := mem_updateWhere.mp hu
    refine ⟨u₀, hu₀, ?_⟩
    split
    · exact ⟨rfl, fun _ => rfl⟩
    · exact .refl u₀
  | _ => exact h

theorem hasAudience_access {op : Operation} (h : (s.cascade op).HasAudience credentialId id) :
    s.HasAudience credentialId id := by
  cases op with
  | deleteResource id' now audit =>
    obtain ⟨c, hc, hid, haudience⟩ := h
    obtain ⟨c₀, hc₀, rfl⟩ := mem_updateWhere.mp hc
    refine ⟨c₀, hc₀, ?_⟩
    split at hid <;> split at haudience <;> exact ⟨hid, haudience⟩
  | _ => exact h

theorem insertAccessToken_settle (row : AccessTokenRow) (s : Site) :
    (Repository.insertAccessToken row).settle s = s ∨
      (Repository.insertAccessToken row).settle s =
        { s with accessTokens := s.accessTokens ++ [row] } := by
  by_cases hadmits : s.AdmitsAccessToken row
  · exact .inr (Batch.settle_of_ok (insertAccessToken_of_admits hadmits))
  · obtain ⟨e, he⟩ := insertAccessToken_error hadmits
    exact .inl (Batch.settle_of_error he)

theorem insertRefreshToken_settle (row : RefreshTokenRow) (s : Site) :
    (Repository.insertRefreshToken row).settle s = s ∨
      (Repository.insertRefreshToken row).settle s =
        { s with refreshTokens := s.refreshTokens ++ [row] } := by
  by_cases hadmits : s.AdmitsRefreshToken row
  · exact .inr (Batch.settle_of_ok (insertRefreshToken_of_admits hadmits))
  · obtain ⟨e, he⟩ := insertRefreshToken_error hadmits
    exact .inl (Batch.settle_of_error he)

theorem createFederatedCredential_settle (input : FederatedCredential) (s : Site) :
    (Repository.createFederatedCredential input).settle s = s ∨
      s.hasCredential input.id = false ∧
        (Repository.createFederatedCredential input).settle s =
          { s with federatedCredentials := s.federatedCredentials ++ [input] } := by
  by_cases hclash : (s.federatedCredentials.any fun c => c.id == input.id ||
      (c.applicationId == input.applicationId && c.issuer == input.issuer &&
        c.subject == input.subject)) = true
  · exact .inl (Batch.settle_of_error (if_pos hclash))
  · refine .inr ⟨?_, Batch.settle_of_ok (if_neg hclash)⟩
    rw [Site.hasCredential, List.any_eq_false]
    intro c hc hid
    refine hclash (List.any_eq_true.mpr ⟨c, hc, ?_⟩)
    rw [hid, Bool.true_or]

/-- A token that is alive after an operation under a credential for a resource was so before, or
the resource is live. -/
theorem liveToken_perform {op : SiteOperation} (hvalid : s.Valid) (hlands : LandsOnLive s op)
    (hrotation : ∀ r, op = .rotateRefreshToken r →
      (∀ t ∈ s.refreshTokens, t.id ≠ r.refreshToken.id) ∧
      r.accessToken.grant = r.refreshToken.grant ∧
      ∀ p ∈ s.refreshTokens, r.parentIsActive p = true →
        p.grant.credentialId = r.refreshToken.grant.credentialId)
    (hlive : (op.perform s).LiveToken credentialId)
    (haudience : (op.perform s).HasAudience credentialId id) :
    (s.LiveToken credentialId ∧ s.HasAudience credentialId id) ∨ s.access.directory.Live id := by
  cases op with
  | read => exact .inl ⟨hlive, haudience⟩
  | clients rows => exact .inl ⟨hlive, haudience⟩
  | applications rows => exact .inl ⟨hlive, haudience⟩
  | consumeConnectionIntent stateHash now => exact .inl ⟨hlive, haudience⟩
  | access op =>
    by_cases hkeeps : op.keepsResources = true
    · rw [perform_access hkeeps] at hlive haudience
      exact .inl ⟨liveToken_access hlive, hasAudience_access haudience⟩
    · have hsame : (SiteOperation.access op).perform s = s := if_neg hkeeps
      rw [hsame] at hlive haudience
      exact .inl ⟨hlive, haudience⟩
  | createFederatedCredential input =>
    rcases createFederatedCredential_settle input s with hsame | ⟨hnew, hstore⟩
    · exact .inl (hsame ▸ ⟨hlive, haudience⟩)
    · change ((Repository.createFederatedCredential input).settle s).LiveToken _ at hlive
      change ((Repository.createFederatedCredential input).settle s).HasAudience _ _ at haudience
      rw [hstore] at hlive haudience
      have hlive₀ : s.LiveToken credentialId := hlive
      obtain ⟨c, hc, hid, hresource⟩ := haudience
      rcases List.mem_append.mp hc with hc | hc
      · exact .inl ⟨hlive₀, c, hc, hid, hresource⟩
      · obtain rfl := List.mem_singleton.mp hc
        have hold := hlive₀.hasCredential hvalid
        rw [← hid, hnew] at hold
        cases hold
  | updateFederatedCredential applicationId cid patch =>
    have hlive₀ : s.LiveToken credentialId := hlive
    obtain ⟨c, hc, hid, hresource⟩ := haudience
    obtain ⟨c₀, hc₀, rfl⟩ := mem_updateWhere.mp hc
    by_cases hselected : (c₀.id == cid && c₀.applicationId == applicationId) = true
    · rw [if_pos hselected] at hid hresource
      rw [Bool.and_eq_true, beq_iff_eq] at hselected
      have hcid : credentialId = cid := hid.symm.trans hselected.1
      cases hpatch : patch.audienceResourceId with
      | none =>
        rw [FederatedCredential.patched, hpatch] at hresource
        exact .inl ⟨hlive₀, c₀, hc₀, hid, hresource⟩
      | some resourceId =>
        rw [FederatedCredential.patched, hpatch] at hresource
        obtain rfl : resourceId = id := hresource
        exact .inr (hlands (hcid ▸ hlive₀) resourceId hpatch)
    · rw [if_neg hselected] at hid hresource
      exact .inl ⟨hlive₀, c₀, hc₀, hid, hresource⟩
  | storeAccessToken row =>
    change ((Repository.insertAccessToken row).settle s).LiveToken _ at hlive
    change ((Repository.insertAccessToken row).settle s).HasAudience _ _ at haudience
    rcases insertAccessToken_settle row s with hstore | hstore <;> rw [hstore] at hlive haudience
    · exact .inl ⟨hlive, haudience⟩
    · rcases hlive with ⟨u, hu, hgrant, hnone⟩ | hlive
      · rcases List.mem_append.mp hu with hu | hu
        · exact .inl ⟨.inl ⟨u, hu, hgrant, hnone⟩, haudience⟩
        · obtain rfl := List.mem_singleton.mp hu
          exact .inr (hlands id (hgrant ▸ haudience))
      · exact .inl ⟨.inr hlive, haudience⟩
  | insertRefreshToken row =>
    change ((Repository.insertRefreshToken row).settle s).LiveToken _ at hlive
    change ((Repository.insertRefreshToken row).settle s).HasAudience _ _ at haudience
    rcases insertRefreshToken_settle row s with hstore | hstore <;> rw [hstore] at hlive haudience
    · exact .inl ⟨hlive, haudience⟩
    · rcases hlive with hlive | ⟨u, hu, hgrant, hnone⟩
      · exact .inl ⟨.inl hlive, haudience⟩
      · rcases List.mem_append.mp hu with hu | hu
        · exact .inl ⟨.inr ⟨u, hu, hgrant, hnone⟩, haudience⟩
        · obtain rfl := List.mem_singleton.mp hu
          exact .inr (hlands id (hgrant ▸ haudience))
  | revokeRefreshToken tokenId now =>
    exact .inl ⟨hlive.earlier (fun u hu => ⟨u, hu, .refl u⟩)
      fun u => mem_updateWhere_persists, haudience⟩
  | revokeRefreshTokenFamily familyId now =>
    exact .inl ⟨hlive.earlier (fun u hu => ⟨u, hu, .refl u⟩)
      fun u => mem_updateWhere_persists, haudience⟩
  | rotateRefreshToken r =>
    obtain ⟨hfresh, hgrant, hparents⟩ := hrotation r rfl
    change ((Repository.rotateRefreshToken r).settle s).LiveToken _ at hlive
    change ((Repository.rotateRefreshToken r).settle s).HasAudience _ _ at haudience
    rcases rotateRefreshToken_cases hfresh with ⟨hparent, _, hok⟩ | ⟨e, he⟩ | ⟨_, hok⟩
    · rw [Batch.settle_of_ok hok] at hlive haudience
      refine .inl ⟨?_, haudience⟩
      obtain ⟨p, hp, hactive⟩ := List.any_eq_true.mp hparent
      have hnew : r.refreshToken.grant.credentialId = credentialId → s.LiveToken credentialId := by
        intro hcredential
        simp only [Rotation.parentIsActive, Bool.and_eq_true, Option.isNone_iff_eq_none] at hactive
        exact .inr ⟨p, hp, (hparents p hp (by simp [Rotation.parentIsActive, hactive])).trans
          hcredential, hactive.2⟩
      rcases hlive with ⟨u, hu, hcredential, hnone⟩ | ⟨u, hu, hcredential, hnone⟩
      · rcases List.mem_append.mp hu with hu | hu
        · exact .inl ⟨u, hu, hcredential, hnone⟩
        · obtain rfl := List.mem_singleton.mp hu
          exact hnew (hgrant ▸ hcredential)
      · obtain ⟨u₀, hu₀, rfl⟩ := mem_updateWhere.mp hu
        have hcredential₀ : u₀.grant.credentialId = credentialId := by
          split at hcredential <;> exact hcredential
        have hnone₀ : u₀.revokedAt = none := by
          split at hnone <;> exact hnone
        rcases List.mem_append.mp hu₀ with hu₀ | hu₀
        · exact .inr ⟨u₀, hu₀, hcredential₀, hnone₀⟩
        · obtain rfl := List.mem_singleton.mp hu₀
          exact hnew hcredential₀
    · rw [Batch.settle_of_error he] at hlive haudience
      exact .inl ⟨hlive, haudience⟩
    · rw [Batch.settle_of_ok hok] at hlive haudience
      exact .inl ⟨hlive, haudience⟩
  | createConnectionIntent input =>
    have hkeeps : Batch.Within (fun s t : Site => t.accessTokens = s.accessTokens ∧
        t.refreshTokens = s.refreshTokens ∧ t.federatedCredentials = s.federatedCredentials)
        (Repository.createConnectionIntent input) := by
      intro s x t hs
      unfold Repository.createConnectionIntent at hs
      split at hs
      · cases hs
        exact ⟨rfl, rfl, rfl⟩
      · split at hs <;> cases hs
        exact ⟨rfl, rfl, rfl⟩
    obtain ⟨haccess, hrefresh, hcredentials⟩ := hkeeps.settle (fun _ => ⟨rfl, rfl, rfl⟩) s
    change ((Repository.createConnectionIntent input).settle s).LiveToken _ at hlive
    change ((Repository.createConnectionIntent input).settle s).HasAudience _ _ at haudience
    unfold Site.LiveToken at hlive
    unfold Site.HasAudience at haudience
    rw [haccess, hrefresh] at hlive
    rw [hcredentials] at haudience
    exact .inl ⟨hlive, haudience⟩

end Tokens

section Sweep

variable {s : Site} {op : SiteOperation}

structure Site.SameSides (s t : Site) : Prop where
  access : t.access = s.access
  intents : t.connectionIntents = s.connectionIntents

theorem Site.SameSides.refl (s : Site) : s.SameSides s := ⟨rfl, rfl⟩

theorem Site.SameSides.trans {s t u : Site} (h : s.SameSides t) (h' : t.SameSides u) :
    s.SameSides u := ⟨h'.1.trans h.1, h'.2.trans h.2⟩

theorem sameSides_insertAccessToken (row : AccessTokenRow) :
    Batch.Within Site.SameSides (Repository.insertAccessToken row) := by
  intro s x t hs
  unfold Repository.insertAccessToken at hs
  split at hs
  · cases hs
  · split at hs <;> cases hs
    exact ⟨rfl, rfl⟩

theorem sameSides_insertRefreshToken (row : RefreshTokenRow) :
    Batch.Within Site.SameSides (Repository.insertRefreshToken row) := by
  intro s x t hs
  unfold Repository.insertRefreshToken at hs
  split at hs
  · cases hs
  · split at hs <;> cases hs
    exact ⟨rfl, rfl⟩

theorem sameSides_rotateRefreshToken (r : Rotation) :
    Batch.Within Site.SameSides (Repository.rotateRefreshToken r) := by
  have htrans : ∀ s t u : Site, s.SameSides t → t.SameSides u → s.SameSides u :=
    fun _ _ _ => .trans
  have hselected : ∀ {insert : SiteBatch Unit} (selected : Site → Bool),
      Batch.Within Site.SameSides insert →
      Batch.Within Site.SameSides (Repository.insertSelected insert selected) := by
    intro insert selected h
    refine .bind htrans (.read .refl _) fun found => ?_
    split
    · exact .bind htrans h fun _ => .pure .refl _
    · exact .pure .refl _
  refine .bind htrans (hselected _ (sameSides_insertRefreshToken _)) fun _ => ?_
  refine .bind htrans ?_ fun _ => ?_
  · exact .bind htrans (.read .refl _) fun _ =>
      .bind htrans (.modify fun _ => ⟨rfl, rfl⟩) fun _ => .pure .refl _
  · exact .bind htrans (hselected _ (sameSides_insertAccessToken _)) fun _ => .pure .refl _

theorem sameSides_createFederatedCredential (input : FederatedCredential) :
    Batch.Within Site.SameSides (Repository.createFederatedCredential input) := by
  intro s x t hs
  unfold Repository.createFederatedCredential at hs
  split at hs <;> cases hs
  exact ⟨rfl, rfl⟩

def SiteOperation.Sides : SiteOperation → Prop
  | .access _ => True
  | .createConnectionIntent _ => True
  | .consumeConnectionIntent .. => True
  | _ => False

theorem sameSides_perform (h : ¬op.Sides) (s : Site) : s.SameSides (op.perform s) := by
  cases op with
  | access op => exact absurd trivial h
  | createConnectionIntent input => exact absurd trivial h
  | consumeConnectionIntent stateHash now => exact absurd trivial h
  | createFederatedCredential input =>
    exact (sameSides_createFederatedCredential input).settle .refl s
  | storeAccessToken row => exact (sameSides_insertAccessToken row).settle .refl s
  | insertRefreshToken row => exact (sameSides_insertRefreshToken row).settle .refl s
  | rotateRefreshToken r => exact (sameSides_rotateRefreshToken r).settle .refl s
  | _ => exact ⟨rfl, rfl⟩

/-- The insert of an intent leaves agent access alone and finds the resource active. -/
theorem createConnectionIntent_settle (input : ConnectionIntent) (s : Site) :
    (Repository.createConnectionIntent input).settle s = s ∨
      s.access.directory.Live input.resourceId ∧
        (Repository.createConnectionIntent input).settle s =
          { s with connectionIntents := s.connectionIntents ++ [input] } := by
  by_cases hactive : (s.access.directory.activeResource input.resourceId).isNone = true
  · exact .inl (Batch.settle_of_ok (if_pos hactive))
  · have hlive : s.access.directory.Live input.resourceId := by
      rw [Option.isNone_iff_eq_none, ← ne_eq, Option.ne_none_iff_isSome] at hactive
      exact Directory.live_of_activeResource hactive
    by_cases hclash : (s.connectionIntents.any fun i =>
        i.id == input.id || i.stateHash == input.stateHash) = true
    · exact .inl (Batch.settle_of_error ((if_neg hactive).trans (if_pos hclash)))
    · exact .inr ⟨hlive, Batch.settle_of_ok ((if_neg hactive).trans (if_neg hclash))⟩

/-- Only the operations of agent access change its tables. -/
theorem access_perform (op : SiteOperation) (s : Site) :
    (op.perform s).access = s.access ∨
      ∃ op', op = .access op' ∧ op'.keepsResources = true ∧
        (op.perform s).access = op'.perform s.access := by
  by_cases hsides : op.Sides
  · cases op with
    | access op =>
      by_cases hkeeps : op.keepsResources = true
      · refine .inr ⟨op, rfl, hkeeps, ?_⟩
        rw [perform_access hkeeps]
      · have hsame : (SiteOperation.access op).perform s = s := if_neg hkeeps
        exact .inl (by rw [hsame])
    | createConnectionIntent input =>
      have hstore := createConnectionIntent_settle input s
      change ((Repository.createConnectionIntent input).settle s).access = _ ∨ _
      rcases hstore with hsame | ⟨_, hstore⟩
      · exact .inl (by rw [hsame])
      · exact .inl (by rw [hstore])
    | consumeConnectionIntent stateHash now => exact .inl rfl
    | _ => exact hsides.elim
  · exact .inl (sameSides_perform hsides s).access

/-- An intent was there before, or was created under an active resource. -/
theorem mem_connectionIntents_perform {i : ConnectionIntent}
    (h : i ∈ (op.perform s).connectionIntents) :
    (∃ i₀ ∈ s.connectionIntents, i₀.Persists i) ∨ s.access.directory.Live i.resourceId := by
  have hsame : i ∈ s.connectionIntents → ∃ i₀ ∈ s.connectionIntents, i₀.Persists i :=
    fun hi => ⟨i, hi, .refl i⟩
  by_cases hsides : op.Sides
  · cases op with
    | access op =>
      by_cases hkeeps : op.keepsResources = true
      · rw [perform_access hkeeps] at h
        cases op with
        | deleteResource id now audit =>
          obtain ⟨i₀, hi₀, rfl⟩ := mem_updateWhere.mp h
          refine .inl ⟨i₀, hi₀, ?_⟩
          split
          · exact ⟨rfl, rfl, fun _ => by simp⟩
          · exact .refl i₀
        | _ => exact .inl (hsame h)
      · have hstore : (SiteOperation.access op).perform s = s := if_neg hkeeps
        rw [hstore] at h
        exact .inl (hsame h)
    | createConnectionIntent input =>
      change i ∈ ((Repository.createConnectionIntent input).settle s).connectionIntents at h
      rcases createConnectionIntent_settle input s with hstore | ⟨hlive, hstore⟩ <;>
        rw [hstore] at h
      · exact .inl (hsame h)
      · rcases List.mem_append.mp h with h | h
        · exact .inl (hsame h)
        · obtain rfl := List.mem_singleton.mp h
          exact .inr hlive
    | consumeConnectionIntent stateHash now =>
      obtain ⟨i₀, hi₀, rfl⟩ := mem_updateWhere.mp h
      refine .inl ⟨i₀, hi₀, ?_⟩
      split
      · exact .completed i₀ now
      · exact .refl i₀
    | _ => exact hsides.elim
  · rw [(sameSides_perform hsides s).intents] at h
    exact .inl (hsame h)

/-- A row of a swept kind has its time of revocation after the sweep. -/
theorem isSome_of_sweep {α : Type} (revokedAt : α → Option ℕ) (credentialId : α → Id)
    {ids : List Id} {revoke : α → α} {rows : List α}
    (hrevoke : ∀ t, (revokedAt (revoke t)).isSome = true) {t : α}
    (ht : t ∈ updateWhere (fun t => (revokedAt t).isNone && ids.contains (credentialId t))
      revoke rows)
    (hcontains : ids.contains (credentialId t) = true) : (revokedAt t).isSome = true := by
  obtain ⟨t₀, _, rfl⟩ := mem_updateWhere.mp ht
  by_cases hselected : ((revokedAt t₀).isNone && ids.contains (credentialId t₀)) = true
  · rw [if_pos hselected]
    exact hrevoke t₀
  · rw [if_neg hselected] at hcontains ⊢
    rw [hcontains, Bool.and_true, Option.isNone_iff_eq_none] at hselected
    exact Option.isSome_iff_ne_none.mpr hselected

/-- The batch of a deletion leaves nothing alive on its Resource Server. -/
theorem noLiveAuthority_deleteResource (id : Id) (now : ℕ) (audit : AuditEvent) (s : Site) :
    ((SiteOperation.access (.deleteResource id now audit)).perform s).NoLiveAuthority id := by
  have hstore : (SiteOperation.access (.deleteResource id now audit)).perform s =
      { Repository.deleteResource id now s with
        access := (Operation.deleteResource id now audit).perform s.access } :=
    perform_access rfl
  have hcredentials : ∀ credentialId,
      ((SiteOperation.access (.deleteResource id now audit)).perform s).HasAudience
        credentialId id →
      (Repository.credentialsFor id s).contains credentialId = true := by
    intro credentialId haudience
    rw [hstore] at haudience
    obtain ⟨c, hc, hid, haudience⟩ := haudience
    obtain ⟨c₀, hc₀, rfl⟩ := mem_updateWhere.mp hc
    have haudience₀ : c₀.audienceResourceId = id := by
      split at haudience <;> exact haudience
    have hid₀ : c₀.id = credentialId := by
      split at hid <;> exact hid
    rw [List.contains_iff_mem, Repository.credentialsFor, List.mem_map]
    exact ⟨c₀, List.mem_filter.mpr ⟨hc₀, by simpa using haudience₀⟩, hid₀⟩
  rw [hstore] at hcredentials ⊢
  constructor
  · exact fun e he => entitlements_perform_deleteResource he
  · exact fun l hl r hr => leases_perform_deleteResource hl hr
  · exact fun r hr => requests_perform_deleteResource hr
  · intro i hi hresource
    obtain ⟨i₀, _, rfl⟩ := mem_updateWhere.mp hi
    by_cases hselected : (i₀.resourceId == id && i₀.status == .pending) = true
    · rw [if_pos hselected]
      simp
    · rw [if_neg hselected] at hresource ⊢
      simpa [hresource] using hselected
  · exact fun t ht haudience => isSome_of_sweep (fun t : AccessTokenRow => t.revokedAt)
      (fun t => t.grant.credentialId) (fun _ => rfl) ht (hcredentials _ haudience)
  · exact fun t ht haudience => isSome_of_sweep (fun t : RefreshTokenRow => t.revokedAt)
      (fun t => t.grant.credentialId) (fun _ => rfl) ht (hcredentials _ haudience)

/-- What a rotation that is about to commit is known to continue. -/
def Continues (s : Site) (op : SiteOperation) : Prop :=
  ∀ r, op = .rotateRefreshToken r → (∀ t ∈ s.refreshTokens, t.id ≠ r.refreshToken.id) ∧
    r.accessToken.grant = r.refreshToken.grant ∧
    ∀ p ∈ s.refreshTokens, r.parentIsActive p = true →
      p.grant.credentialId = r.refreshToken.grant.credentialId

theorem noLiveAuthority_perform (h : s.Swept) (hlands : LandsOnLive s op)
    (hcontinues : Continues s op) {id : Id}
    (hlive : ¬s.access.directory.Live id) : (op.perform s).NoLiveAuthority id := by
  have hcleared := h.cleared id hlive
  have hvalid := (precedes_perform op s).valid h.valid
  have htokens : ∀ credentialId, (op.perform s).LiveToken credentialId →
      ¬(op.perform s).HasAudience credentialId id := by
    intro credentialId htoken haudience
    rcases liveToken_perform h.valid hlands hcontinues htoken haudience with
      ⟨htoken, haudience⟩ | hlater
    · exact hcleared.tokens htoken haudience
    · exact hlive hlater
  obtain ⟨haccess, hrefresh⟩ := Site.noLiveAuthority_of_tokens htokens
  refine ⟨?_, ?_, ?_, ?_, haccess, hrefresh⟩
  · intro e he hresource
    rcases access_perform op s with hsame | ⟨op', rfl, hkeeps, hstore⟩
    · rw [hsame] at he
      exact hcleared.entitlements e he hresource
    · rw [hstore] at he
      rcases mem_entitlements_live he with ⟨e₀, he₀, hpersists⟩ | hlater | hgrant
      · exact hpersists.ended (hcleared.entitlements e₀ he₀
          (hpersists.resourceServerId.symm.trans hresource))
      · exact absurd (hresource ▸ hlater) hlive
      · exact absurd (hresource ▸ hlands e hgrant) hlive
  · intro l hl r hr hid hresource
    rcases access_perform op s with hsame | ⟨op', rfl, hkeeps, hstore⟩
    · rw [hsame] at hl hr
      exact hcleared.leases l hl r hr hid hresource
    · have hevolves := (FlareAuth.precedes_perform op' s.access).persists.requests
      have hnodup := hvalid.access.requests
      rw [hstore] at hl hr hnodup
      rcases mem_leases_perform hl with ⟨l₀, hl₀, hpersists⟩ | ⟨i, _, hadmits, rfl⟩
      · obtain ⟨r₀, hr₀, hid₀⟩ := h.leaseRequests l₀ hl₀
        have hsame : r.id = r₀.id := hid.trans (hpersists.requestId.trans hid₀.symm)
        have hrequest : r₀.Persists r :=
          hevolves.of_mem_of_key_eq (fun _ _ hp => hp.id) hnodup hr₀ hr hsame
        exact hpersists.revoked (hcleared.leases l₀ hl₀ r₀ hr₀ hid₀
          (hrequest.resourceId.symm.trans hresource))
      · obtain ⟨r₀, hr₀, hinsertable⟩ := (Option.any_eq_true _ _).mp hadmits.1
        have hrequest : r₀.Persists r :=
          hevolves.of_mem_of_key_eq (fun _ _ hp => hp.id) hnodup (mem_of_lookup hr₀) hr
            (hid.trans (key_of_lookup hr₀).symm)
        simp only [Store.leaseInsertable, Bool.and_eq_true] at hinsertable
        have hlater := Directory.live_of_activeResource hinsertable.2
        rw [hrequest.resourceId.symm.trans hresource] at hlater
        exact absurd hlater hlive
  · intro r hr hresource hpending
    rcases access_perform op s with hsame | ⟨op', rfl, hkeeps, hstore⟩
    · rw [hsame] at hr
      exact hcleared.requests r hr hresource hpending
    · rw [hstore] at hr
      rcases mem_requests_perform hr with ⟨r₀, hr₀, hpersists⟩ | hlater
      · refine hpersists.decided ?_ hpending
        exact hcleared.requests r₀ hr₀ (hpersists.resourceId.symm.trans hresource)
      · exact absurd (hresource ▸ hlater) hlive
  · intro i hi hresource
    rcases mem_connectionIntents_perform hi with ⟨i₀, hi₀, hpersists⟩ | hlater
    · exact hpersists.decided (hcleared.intents i₀ hi₀ (hpersists.resourceId.symm.trans hresource))
    · exact absurd (hresource ▸ hlater) hlive

/-- One step of a run whose unguarded writes land on live Resource Servers. -/
theorem swept_perform (h : s.Swept) (hlands : LandsOnLive s op) (hcontinues : Continues s op) :
    (op.perform s).Swept := by
  refine ⟨(precedes_perform op s).valid h.valid, ?_, fun id hdead => ?_⟩
  · rcases access_perform op s with hsame | ⟨op', rfl, _, hstore⟩
    · rw [hsame]
      exact h.leaseRequests
    · rw [hstore]
      exact leasesRequested_perform h.leaseRequests
  · by_cases hdelete : ∃ now audit, op = .access (.deleteResource id now audit)
    · obtain ⟨now, audit, rfl⟩ := hdelete
      exact noLiveAuthority_deleteResource id now audit s
    · refine noLiveAuthority_perform h hlands hcontinues fun hlive => hdead ?_
      rcases access_perform op s with hsame | ⟨op', rfl, hkeeps, hstore⟩
      · rwa [hsame]
      · rw [hstore]
        exact live_perform hkeeps (fun now audit heq => hdelete ⟨now, audit, by rw [heq]⟩) hlive

theorem Site.Fresh.swept (h : s.Fresh) : s.Swept := by
  have hvalid : s.Valid := by
    refine ⟨h.access.valid, ?_, ?_, ?_, ?_, ?_, ?_⟩ <;> simp [h.accessTokens, h.refreshTokens]
  refine ⟨hvalid, by simp [Store.LeasesRequested, h.access.leases],
    fun id _ => ⟨?_, ?_, ?_, ?_, ?_, ?_⟩⟩ <;>
    simp [h.access.leases, h.access.entitlements, h.access.requests, h.connectionIntents,
      h.accessTokens, h.refreshTokens]

end Sweep

section Runs

variable [Locale]

/-- Each operation finds, right before it, that what it writes lands on a live Resource Server. -/
def Landing (pool : ExchangePool) (m : Move Call) : Prop :=
  ∀ i t op, m = .resume i → pool.pending i = some (t, op) → LandsOnLive pool.store op

abbrev LandingReachable : ExchangePool → Prop := ExchangeReachable Landing

variable {ok : ExchangePool → Move Call → Prop} {pool : ExchangePool}

theorem valid_of_reachable (h : ExchangeReachable ok pool) : pool.store.Valid :=
  h.invariant (fun _ hs => hs.swept.valid) (fun op s => (precedes_perform op s).valid) pool.store
    List.mem_cons_self

theorem continues_of_pending (h : ExchangeReachable ok pool) {i : ℕ}
    {t : Thread Call Site SiteOperation Failure Reply} {op : SiteOperation}
    (hpending : pool.pending i = some (t, op)) : Continues pool.store op := by
  rintro r rfl
  obtain ⟨ht, parent, hsucceeds⟩ := h.pending_obeys program_contract hpending
  refine ⟨fresh_of_pending h hpending rfl, hsucceeds.grant, fun p hp hactive => ?_⟩
  obtain ⟨d, hd, hparent⟩ := hsucceeds.read
  have hevolves := (h.evolves_before persists_evolution ht hd).refreshTokens
  simp only [Rotation.parentIsActive, Bool.and_eq_true, beq_iff_eq, hsucceeds.parentId,
    Option.some.injEq] at hactive
  have hpersists : parent.Persists p := hevolves.of_mem_of_key_eq (fun _ _ hp => hp.id)
    (valid_of_reachable h).refreshIds hparent hp hactive.1.1
  rw [hpersists.grant, hsucceeds.credentialId]

theorem swept_of_reachable (h : LandingReachable pool) : pool.store.Swept := by
  refine h.keeps (fun _ => Site.Fresh.swept) fun pool i t op hpool hm hpending hswept => ?_
  exact swept_perform hswept (hm i t op rfl hpending) (continues_of_pending hpool hpending)

omit [Locale] in
/-- A deleted Resource Server stays deleted in every later store. -/
theorem deleted_evolution (id : Id) : Evolution SiteOperation fun s t : Site =>
    s.access.directory.Deleted id → t.access.directory.Deleted id := by
  refine ⟨fun _ h => h, fun _ _ _ h h' hs => h' (h hs), fun op s h => ?_⟩
  change (op.perform s).access.directory.Deleted id
  rcases access_perform op s with hsame | ⟨op', _, _, hstore⟩
  · rwa [hsame]
  · rw [hstore]
    exact deleted_perform h

/-- A Resource Server whose deletion has returned is deleted. -/
theorem deleted_of_returned (h : ExchangeReachable ok pool)
    {t : Thread Call Site SiteOperation Failure Reply} (ht : t ∈ pool.threads) {id : Id}
    {controllerUserId : Option Id} (hcall : t.call = .access (.deleteResource id controllerUserId))
    {reply : Reply} (hdone : t.rest = .done reply) : pool.store.access.directory.Deleted id := by
  have hcompleted := h.returned program_contract ht hdone
  rw [hcall] at hcompleted
  obtain ⟨d, earlier, later, hlog, ⟨now, audit, hop⟩, e, he, r, hfound⟩ := hcompleted
  have hd : d ∈ t.log := by
    rw [hlog]
    exact List.mem_append_right _ List.mem_cons_self
  have hr := List.find?_some hfound
  simp only [decide_eq_true_eq] at hr
  have hbetween : Site.Persists (apply e.operation e.before) d.before :=
    h.evolves_between persists_evolution ht hlog he
  have hbefore : e.before.Persists d.before :=
    (precedes_perform e.operation e.before).persists.trans hbetween
  have hafter := hbefore.trans (precedes_perform d.operation d.before).persists
  obtain ⟨r', hr', hpersists⟩ :=
    hafter.access.directory.resources.exists_of_mem (List.mem_of_find?_eq_some hfound)
  have hcommitted : (d.operation.perform d.before).access.directory.Deleted id := by
    refine ⟨⟨r', hr', hpersists.id.trans hr.1⟩, ?_⟩
    rw [hop, perform_access rfl]
    exact not_live_perform_deleteResource
  exact (h.evolves (deleted_evolution id) t ht).2 d hd hcommitted

/-- In a run whose unguarded writes land on live Resource Servers, a deletion that has returned
leaves nothing alive on its Resource Server, whatever else is still running. -/
theorem deletion_ends_authority (h : LandingReachable pool)
    {t : Thread Call Site SiteOperation Failure Reply} (ht : t ∈ pool.threads) {id : Id}
    {controllerUserId : Option Id} (hcall : t.call = .access (.deleteResource id controllerUserId))
    {reply : Reply} (hdone : t.rest = .done reply) : pool.store.NoLiveAuthority id :=
  (swept_of_reachable h).cleared id (deleted_of_returned h ht hcall hdone).notLive

end Runs

/-- The landing of a write, as a check. -/
def liveCheck (s : Site) (id : Id) : Bool :=
  s.access.directory.resources.any fun r => r.id == id && r.deletedAt.isNone

theorem live_of_check {s : Site} {id : Id} (h : liveCheck s id = true) :
    s.access.directory.Live id := by
  obtain ⟨r, hr, hrow⟩ := List.any_eq_true.mp h
  rw [Bool.and_eq_true, beq_iff_eq, Option.isNone_iff_eq_none] at hrow
  exact ⟨r, hr, hrow.1, hrow.2⟩

def landsCheck (s : Site) : SiteOperation → Bool
  | .access op => op.directGrant.all fun e => liveCheck s e.resourceServerId
  | .storeAccessToken row => s.federatedCredentials.all fun c =>
      c.id != row.grant.credentialId || liveCheck s c.audienceResourceId
  | .insertRefreshToken row => s.federatedCredentials.all fun c =>
      c.id != row.grant.credentialId || liveCheck s c.audienceResourceId
  | .updateFederatedCredential _ _ patch => patch.audienceResourceId.all (liveCheck s)
  | _ => true

theorem liveAudience_of_check {s : Site} {credentialId : Id}
    (h : (s.federatedCredentials.all fun c =>
      c.id != credentialId || liveCheck s c.audienceResourceId) = true) :
    s.LiveAudience credentialId := by
  rintro id ⟨c, hc, hid, rfl⟩
  have hcheck := List.all_eq_true.mp h c hc
  rw [hid, bne_self_eq_false, Bool.false_or] at hcheck
  exact live_of_check hcheck

theorem landsOnLive_of_check {s : Site} {op : SiteOperation} (h : landsCheck s op = true) :
    LandsOnLive s op := by
  cases op with
  | access op =>
    intro e he
    rw [landsCheck, he] at h
    exact live_of_check h
  | storeAccessToken row => exact liveAudience_of_check h
  | insertRefreshToken row => exact liveAudience_of_check h
  | updateFederatedCredential applicationId id patch =>
    intro _ resourceId hpatch
    rw [landsCheck, hpatch] at h
    exact live_of_check h
  | _ => exact trivial

section Samples

def landingCheck (pool : ExchangePool) : Move Call → Bool
  | .start _ => true
  | .resume i => (pool.pending i).all fun (_, op) => landsCheck pool.store op

theorem landing_of_check {pool : ExchangePool} {m : Move Call} (h : landingCheck pool m = true) :
    Landing pool m := by
  rintro i t op rfl hpending
  rw [landingCheck, hpending] at h
  exact landsOnLive_of_check h

def hasDeleted (id : Id) (t : Thread Call Site SiteOperation Failure Reply) : Bool :=
  match t.call, t.rest with
  | .access (.deleteResource id' _), .done _ => id' == id
  | _, _ => false

def exchangeThenDelete : List (Move Call) :=
  Move.alone 0 (.exchangeToken Sample.exchange Sample.credentials "iss") 19 ++
    Move.alone 1 (.access (.deleteResource "notes" (some "u"))) 5

set_option maxRecDepth 10000 in
theorem deletion_ends_authority_sample : ∃ pool : ExchangePool,
    pool.store.accessTokens ≠ [] ∧ pool.store.NoLiveAuthority "notes" := by
  have hrun : ((Pool.initial Sample.site).run Call.program landingCheck exchangeThenDelete).any
      (fun pool => pool.threads.any (hasDeleted "notes") && !pool.store.accessTokens.isEmpty) =
      true := by
    decide +kernel
  obtain ⟨pool, hpool, hcheck⟩ := (Option.any_eq_true _ _).mp hrun
  have hreach : LandingReachable pool := Reachable.of_run (fun _ _ => landing_of_check)
    (.initial Sample.site_fresh) hpool
  rw [Bool.and_eq_true, List.any_eq_true] at hcheck
  obtain ⟨⟨t, ht, hdeleted⟩, htokens⟩ := hcheck
  refine ⟨pool, by simpa using htokens, ?_⟩
  unfold hasDeleted at hdeleted
  split at hdeleted
  · rename_i id controllerUserId reply hcall hdone
    obtain rfl : id = "notes" := by simpa using hdeleted
    exact deletion_ends_authority hreach ht hcall hdone
  · cases hdeleted

/-- A direct grant that has validated its target, the deletion, and then the insert. -/
def grantAcrossDeletion : List (Move Call) :=
  Move.alone 0 (.access (.createAgentPermission "a" ⟨"https://notes", ["read"], .persistent⟩
      "u" none)) 11 ++
    Move.alone 1 (.access (.deleteResource "notes" (some "u"))) 5 ++ [.resume 0]

set_option maxRecDepth 10000 in
/-- An entitlement that is inserted after the deletion of its Resource Server stays active, with
every call at its end. -/
theorem authority_survives_deletion : ∃ pool : ExchangePool,
    ExchangeReachable (fun _ _ => True) pool ∧
    (∃ t ∈ pool.threads, hasDeleted "notes" t = true) ∧
    (∀ t ∈ pool.threads, t.rest.result.isSome = true) ∧ ¬pool.store.NoLiveAuthority "notes" := by
  have hrun : (Sample.run grantAcrossDeletion).any (fun pool =>
      pool.threads.any (hasDeleted "notes") && pool.threads.all (·.rest.result.isSome) &&
        pool.store.access.entitlements.any fun e =>
          e.resourceServerId == "notes" && e.ended.isNone) = true := by
    decide +kernel
  obtain ⟨pool, hpool, hcheck⟩ := Sample.reachable_of_run hrun
  simp only [Bool.and_eq_true, List.any_eq_true, List.all_eq_true, beq_iff_eq,
    Option.isNone_iff_eq_none] at hcheck
  obtain ⟨⟨hdeleted, hfinished⟩, e, he, hresource, hactive⟩ := hcheck
  refine ⟨pool, hpool, hdeleted, hfinished, fun hno => ?_⟩
  have hended := hno.entitlements e he hresource
  rw [hactive] at hended
  cases hended

end Samples

end FlareAuth.TokenExchange
