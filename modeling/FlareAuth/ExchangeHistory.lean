import FlareAuth.AccessHistory
import FlareAuth.ExchangeStore

/-!
# What every operation of token exchange preserves

Exchanged tokens keep all columns but the times of their consumption and their
revocation, which are set for good, and a decided intent is not pending again.
Every operation respects this, the unique indexes and the references of tokens
to their credentials.
-/

namespace FlareAuth.TokenExchange

open Concurrent Relational

structure AccessTokenRow.Persists (old new : AccessTokenRow) : Prop where
  columns : new = { old with revokedAt := new.revokedAt }
  revoked : old.revokedAt.isSome → new.revokedAt.isSome

structure RefreshTokenRow.Persists (old new : RefreshTokenRow) : Prop where
  columns : new = { old with consumedAt := new.consumedAt, revokedAt := new.revokedAt }
  consumed : old.consumedAt.isSome → new.consumedAt.isSome
  revoked : old.revokedAt.isSome → new.revokedAt.isSome

structure FederatedCredential.Persists (old new : FederatedCredential) : Prop where
  id : new.id = old.id
  applicationId : new.applicationId = old.applicationId
  issuer : new.issuer = old.issuer

structure ConnectionIntent.Persists (old new : ConnectionIntent) : Prop where
  id : new.id = old.id
  resourceId : new.resourceId = old.resourceId
  decided : old.status ≠ .pending → new.status ≠ .pending

namespace AccessTokenRow.Persists

variable {t u v : AccessTokenRow}

theorem refl (t : AccessTokenRow) : t.Persists t := ⟨rfl, fun h => h⟩

theorem trans (h : t.Persists u) (h' : u.Persists v) : t.Persists v := by
  refine ⟨?_, fun ht => h'.revoked (h.revoked ht)⟩
  rw [h'.columns, h.columns]

theorem id (h : t.Persists u) : u.id = t.id := by rw [h.columns]

theorem grant (h : t.Persists u) : u.grant = t.grant := by rw [h.columns]

theorem tokenHash (h : t.Persists u) : u.tokenHash = t.tokenHash := by rw [h.columns]

end AccessTokenRow.Persists

namespace RefreshTokenRow.Persists

variable {t u v : RefreshTokenRow}

theorem refl (t : RefreshTokenRow) : t.Persists t := ⟨rfl, fun h => h, fun h => h⟩

theorem trans (h : t.Persists u) (h' : u.Persists v) : t.Persists v := by
  refine ⟨?_, fun ht => h'.consumed (h.consumed ht), fun ht => h'.revoked (h.revoked ht)⟩
  rw [h'.columns, h.columns]

theorem id (h : t.Persists u) : u.id = t.id := by rw [h.columns]

theorem familyId (h : t.Persists u) : u.familyId = t.familyId := by rw [h.columns]

theorem parentId (h : t.Persists u) : u.parentId = t.parentId := by rw [h.columns]

theorem grant (h : t.Persists u) : u.grant = t.grant := by rw [h.columns]

theorem tokenHash (h : t.Persists u) : u.tokenHash = t.tokenHash := by rw [h.columns]

end RefreshTokenRow.Persists

theorem FederatedCredential.Persists.refl (c : FederatedCredential) : c.Persists c :=
  ⟨rfl, rfl, rfl⟩

theorem FederatedCredential.Persists.trans {c d e : FederatedCredential} (h : c.Persists d)
    (h' : d.Persists e) : c.Persists e :=
  ⟨h'.id.trans h.id, h'.applicationId.trans h.applicationId, h'.issuer.trans h.issuer⟩

theorem ConnectionIntent.Persists.refl (i : ConnectionIntent) : i.Persists i :=
  ⟨rfl, rfl, fun h => h⟩

theorem ConnectionIntent.Persists.trans {i j k : ConnectionIntent} (h : i.Persists j)
    (h' : j.Persists k) : i.Persists k :=
  ⟨h'.id.trans h.id, h'.resourceId.trans h.resourceId, fun hi => h'.decided (h.decided hi)⟩

theorem ConnectionIntent.Persists.completed (i : ConnectionIntent) (now : ℕ) :
    i.Persists (i.completed now) := ⟨rfl, rfl, fun _ => nofun⟩

namespace Site

structure Persists (s t : Site) : Prop where
  access : s.access.Persists t.access
  credentials : Evolves FederatedCredential.Persists s.federatedCredentials t.federatedCredentials
  accessTokens : Evolves AccessTokenRow.Persists s.accessTokens t.accessTokens
  refreshTokens : Evolves RefreshTokenRow.Persists s.refreshTokens t.refreshTokens
  intents : Evolves ConnectionIntent.Persists s.connectionIntents t.connectionIntents

/-- The unique indexes of the tables, and the references of tokens to credentials. -/
structure Valid (s : Site) : Prop where
  access : s.access.Valid
  accessIds : (s.accessTokens.map (·.id)).Nodup
  refreshIds : (s.refreshTokens.map (·.id)).Nodup
  refreshHashes : (s.refreshTokens.map (·.tokenHash)).Nodup
  parents : (s.refreshTokens.filterMap (·.parentId)).Nodup
  accessCredentials : ∀ t ∈ s.accessTokens, s.hasCredential t.grant.credentialId
  refreshCredentials : ∀ t ∈ s.refreshTokens, s.hasCredential t.grant.credentialId

structure Precedes (s t : Site) : Prop where
  persists : s.Persists t
  valid : s.Valid → t.Valid

theorem hasCredential_iff {s : Site} {id : Id} :
    s.hasCredential id ↔ ∃ c ∈ s.federatedCredentials, c.id = id := by
  rw [hasCredential, List.any_eq_true]
  simp only [beq_iff_eq]

theorem Persists.hasCredential {s t : Site} {id : Id}
    (h : Evolves FederatedCredential.Persists s.federatedCredentials t.federatedCredentials)
    (hs : s.hasCredential id) : t.hasCredential id := by
  obtain ⟨c, hc, rfl⟩ := hasCredential_iff.mp hs
  obtain ⟨d, hd, hpersists⟩ := h.exists_of_mem hc
  exact hasCredential_iff.mpr ⟨d, hd, hpersists.id⟩

theorem Persists.refl (s : Site) : s.Persists s :=
  ⟨.refl _, .refl .refl _, .refl .refl _, .refl .refl _, .refl .refl _⟩

theorem Persists.trans {s t u : Site} (h : s.Persists t) (h' : t.Persists u) : s.Persists u :=
  ⟨h.access.trans h'.access, h.credentials.trans (fun _ _ _ => .trans) h'.credentials,
    h.accessTokens.trans (fun _ _ _ => .trans) h'.accessTokens,
    h.refreshTokens.trans (fun _ _ _ => .trans) h'.refreshTokens,
    h.intents.trans (fun _ _ _ => .trans) h'.intents⟩

namespace Precedes

theorem refl (s : Site) : s.Precedes s := ⟨.refl s, fun h => h⟩

theorem trans {s t u : Site} (h : s.Precedes t) (h' : t.Precedes u) : s.Precedes u :=
  ⟨h.persists.trans h'.persists, fun hs => h'.valid (h.valid hs)⟩

theorem access {s : Site} {a : Store} (h : s.access.Precedes a) :
    s.Precedes { s with access := a } :=
  ⟨⟨h.persists, .refl .refl _, .refl .refl _, .refl .refl _, .refl .refl _⟩,
    fun hs => ⟨h.valid hs.1, hs.2, hs.3, hs.4, hs.5, hs.6, hs.7⟩⟩

theorem credentials {s : Site} {rows : List FederatedCredential}
    (h : Evolves FederatedCredential.Persists s.federatedCredentials rows) :
    s.Precedes { s with federatedCredentials := rows } :=
  ⟨⟨.refl _, h, .refl .refl _, .refl .refl _, .refl .refl _⟩,
    fun hs => ⟨hs.1, hs.2, hs.3, hs.4, hs.5,
      fun t ht => Persists.hasCredential (t := { s with federatedCredentials := rows }) h
        (hs.6 t ht),
      fun t ht => Persists.hasCredential (t := { s with federatedCredentials := rows }) h
        (hs.7 t ht)⟩⟩

theorem intents {s : Site} {rows : List ConnectionIntent}
    (h : Evolves ConnectionIntent.Persists s.connectionIntents rows) :
    s.Precedes { s with connectionIntents := rows } :=
  ⟨⟨.refl _, .refl .refl _, .refl .refl _, .refl .refl _, h⟩,
    fun hs => ⟨hs.1, hs.2, hs.3, hs.4, hs.5, hs.6, hs.7⟩⟩

/-- An update of access tokens that sets the time of their revocation. -/
theorem revokeAccessTokens (s : Site) (p : AccessTokenRow → Bool) (now : ℕ) :
    s.Precedes { s with
      accessTokens := updateWhere p (fun t => { t with revokedAt := some now })
        s.accessTokens } := by
  have hevolves : Evolves AccessTokenRow.Persists s.accessTokens
      (updateWhere p (fun t => { t with revokedAt := some now }) s.accessTokens) :=
    .updateWhere .refl fun t _ _ => ⟨rfl, fun _ => rfl⟩
  refine ⟨⟨.refl _, .refl .refl _, hevolves, .refl .refl _, .refl .refl _⟩, fun hs => ?_⟩
  refine ⟨hs.1, nodup_map_updateWhere (fun _ _ => rfl) hs.2, hs.3, hs.4, hs.5, fun t ht => ?_, hs.7⟩
  obtain ⟨t₀, ht₀, rfl⟩ := mem_updateWhere.mp ht
  split <;> exact hs.6 t₀ ht₀

/-- An update of refresh tokens that sets the times of their consumption or revocation. -/
theorem updateRefreshTokens (s : Site) (p : RefreshTokenRow → Bool)
    {f : RefreshTokenRow → RefreshTokenRow} (hf : ∀ t, p t = true → t.Persists (f t)) :
    s.Precedes { s with refreshTokens := updateWhere p f s.refreshTokens } := by
  have hevolves : Evolves RefreshTokenRow.Persists s.refreshTokens
      (updateWhere p f s.refreshTokens) := .updateWhere .refl fun t _ ht => hf t ht
  refine ⟨⟨.refl _, .refl .refl _, .refl .refl _, hevolves, .refl .refl _⟩, fun hs => ?_⟩
  have hparents : (updateWhere p f s.refreshTokens).filterMap (·.parentId) =
      s.refreshTokens.filterMap (·.parentId) := by
    rw [updateWhere, List.filterMap_map]
    refine List.filterMap_congr fun t _ => ?_
    by_cases ht : p t
    · simpa [ht] using (hf t ht).parentId
    · simp [ht]
  refine ⟨hs.1, hs.2, nodup_map_updateWhere (fun t ht => (hf t ht).id) hs.3,
    nodup_map_updateWhere (fun t ht => (hf t ht).tokenHash) hs.4, hparents ▸ hs.5, hs.6,
    fun t ht => ?_⟩
  obtain ⟨t₀, ht₀, rfl⟩ := mem_updateWhere.mp ht
  by_cases hp : p t₀
  · rw [if_pos hp, (hf t₀ hp).grant]
    exact hs.7 t₀ ht₀
  · rw [if_neg hp]
    exact hs.7 t₀ ht₀

end Precedes

end Site

namespace Repository

theorem precedes_insertAccessToken (input : AccessTokenRow) :
    Batch.Within Site.Precedes (insertAccessToken input) := by
  intro s x t h
  unfold insertAccessToken at h
  split at h
  · cases h
  · rename_i hcredential
    split at h
    · cases h
    · rename_i hfresh
      cases h
      refine ⟨⟨.refl _, .refl .refl _, .append .refl _ _, .refl .refl _, .refl .refl _⟩,
        fun hs => ?_⟩
      refine ⟨hs.1, nodup_map_append_singleton hs.2 fun q hq heq => hfresh ?_, hs.3, hs.4, hs.5,
        fun u hu => ?_, hs.7⟩
      · exact List.any_eq_true.mpr ⟨q, hq, by simp [heq]⟩
      · rcases List.mem_append.mp hu with hu | hu
        · exact hs.6 u hu
        · obtain rfl := List.mem_singleton.mp hu
          have hc : s.hasCredential u.grant.credentialId = true := by simpa using hcredential
          exact hc

theorem precedes_insertRefreshToken (input : RefreshTokenRow) :
    Batch.Within Site.Precedes (insertRefreshToken input) := by
  intro s x t h
  unfold insertRefreshToken at h
  split at h
  · cases h
  · rename_i hcredential
    split at h
    · cases h
    · rename_i hfresh
      cases h
      have hnew : ∀ q ∈ s.refreshTokens, q.id ≠ input.id ∧ q.tokenHash ≠ input.tokenHash ∧
          (input.parentId.isSome → q.parentId ≠ input.parentId) := by
        intro q hq
        refine ⟨fun heq => hfresh ?_, fun heq => hfresh ?_, fun hsome heq => hfresh ?_⟩ <;>
          exact List.any_eq_true.mpr ⟨q, hq, by simp_all⟩
      refine ⟨⟨.refl _, .refl .refl _, .refl .refl _, .append .refl _ _, .refl .refl _⟩,
        fun hs => ?_⟩
      refine ⟨hs.1, hs.2, nodup_map_append_singleton hs.3 fun q hq => (hnew q hq).1,
        nodup_map_append_singleton hs.4 fun q hq => (hnew q hq).2.1, ?_, hs.6, fun u hu => ?_⟩
      · cases hparent : input.parentId with
        | none => simpa [hparent] using hs.5
        | some p =>
          rw [List.filterMap_append, List.nodup_append]
          refine ⟨hs.5, by simp [hparent], fun a ha b hb => ?_⟩
          obtain rfl : b = p := by simpa [hparent] using hb
          obtain ⟨q, hq, hqa⟩ := List.mem_filterMap.mp ha
          have hne := (hnew q hq).2.2 (by simp [hparent])
          rw [hqa, hparent] at hne
          exact fun heq => hne (congrArg some heq)
      · rcases List.mem_append.mp hu with hu | hu
        · exact hs.7 u hu
        · obtain rfl := List.mem_singleton.mp hu
          have hc : s.hasCredential u.grant.credentialId = true := by simpa using hcredential
          exact hc

section Rotation

variable {E : Site → Site → Prop} (hrefl : ∀ s, E s s) (htrans : ∀ s t u, E s t → E t u → E s u)

include hrefl htrans

theorem within_insertSelected {insert : SiteBatch Unit} (h : Batch.Within E insert)
    (selected : Site → Bool) : Batch.Within E (insertSelected insert selected) := by
  refine .bind htrans (.read hrefl _) fun found => ?_
  split
  · exact .bind htrans h fun _ => .pure hrefl _
  · exact .pure hrefl _

/-- A rotation stays within a preorder that its three statements respect. -/
theorem within_rotateRefreshToken {r : Rotation}
    (hrefresh : Batch.Within E (insertRefreshToken r.refreshToken))
    (hconsume : ∀ s : Site, E s { s with
      refreshTokens := updateWhere r.parentIsActive (fun t => { t with consumedAt := some r.now })
        s.refreshTokens })
    (haccess : Batch.Within E (insertAccessToken r.accessToken)) :
    Batch.Within E (rotateRefreshToken r) := by
  have hparent : Batch.Within E (consumeParent r) :=
    .bind htrans (.read hrefl _) fun _ => .bind htrans (.modify hconsume) fun _ => .pure hrefl _
  refine .bind htrans (within_insertSelected hrefl htrans hrefresh _) fun _ => ?_
  refine .bind htrans hparent fun _ => ?_
  exact .bind htrans (within_insertSelected hrefl htrans haccess _) fun _ => .pure hrefl _

end Rotation

theorem precedes_rotateRefreshToken (r : Rotation) :
    Batch.Within Site.Precedes (rotateRefreshToken r) := by
  refine within_rotateRefreshToken .refl (fun _ _ _ => .trans) (precedes_insertRefreshToken _)
    (fun s => ?_) (precedes_insertAccessToken _)
  exact .updateRefreshTokens s _ fun t _ => ⟨rfl, fun _ => rfl, fun h => h⟩

theorem precedes_revokeRefreshTokens (p : RefreshTokenRow → Bool) (now : ℕ) :
    Batch.Within Site.Precedes (revokeRefreshTokens p now) :=
  .modify fun s => .updateRefreshTokens s p fun _ _ => ⟨rfl, fun h => h, fun _ => rfl⟩

theorem precedes_createFederatedCredential (input : FederatedCredential) :
    Batch.Within Site.Precedes (createFederatedCredential input) := by
  intro s x t h
  unfold createFederatedCredential at h
  split at h <;> cases h
  exact .credentials (.append .refl _ _)

theorem precedes_updateFederatedCredential (applicationId id : Id)
    (patch : UpdateFederatedCredential) :
    Batch.Within Site.Precedes (updateFederatedCredential applicationId id patch) :=
  .modify fun _ => .credentials (.updateWhere .refl fun _ _ _ => ⟨rfl, rfl, rfl⟩)

theorem precedes_createConnectionIntent (input : ConnectionIntent) :
    Batch.Within Site.Precedes (createConnectionIntent input) := by
  intro s x t h
  unfold createConnectionIntent at h
  split at h
  · cases h
    exact .refl s
  · split at h <;> cases h
    exact .intents (.append .refl _ _)

theorem precedes_consumeConnectionIntent (stateHash : Digest String) (now : ℕ) :
    Batch.Within Site.Precedes (consumeConnectionIntent stateHash now) := by
  refine .bind (fun _ _ _ => .trans) (.read .refl _) fun _ => ?_
  refine .bind (fun _ _ _ => .trans) (.modify fun s => ?_) fun _ => .pure .refl _
  exact .intents (.updateWhere .refl fun i _ _ => .completed i now)

theorem precedes_deleteResource (id : Id) (now : ℕ) (s : Site) :
    s.Precedes (deleteResource id now s) := by
  have hintents : s.Precedes { s with
      connectionIntents := updateWhere (fun i => i.resourceId == id && i.status == .pending)
        (fun i => { i with status := .cancelled, completedAt := some now })
        s.connectionIntents } :=
    .intents (.updateWhere .refl fun _ _ _ => ⟨rfl, rfl, fun _ => by simp⟩)
  have hcredentials : s.Precedes { s with
      federatedCredentials := updateWhere (fun c => c.audienceResourceId == id && c.enabled)
        (fun c => { c with enabled := false }) s.federatedCredentials } :=
    .credentials (.updateWhere .refl fun _ _ _ => ⟨rfl, rfl, rfl⟩)
  have haccess := Site.Precedes.revokeAccessTokens s
    (fun t => t.revokedAt.isNone && (credentialsFor id s).contains t.grant.credentialId) now
  have hrefresh := Site.Precedes.updateRefreshTokens s
    (fun t => t.revokedAt.isNone && (credentialsFor id s).contains t.grant.credentialId)
    (f := fun t => { t with revokedAt := some now }) fun _ _ => ⟨rfl, fun h => h, fun _ => rfl⟩
  refine ⟨⟨.refl _, hcredentials.persists.credentials, haccess.persists.accessTokens,
    hrefresh.persists.refreshTokens, hintents.persists.intents⟩, fun hs => ?_⟩
  have ha := haccess.valid hs
  have hr := hrefresh.valid hs
  have hkept : ∀ {id' : Id}, s.hasCredential id' → (deleteResource id now s).hasCredential id' :=
    Site.Persists.hasCredential (t := deleteResource id now s) hcredentials.persists.credentials
  exact ⟨hs.1, ha.2, hr.3, hr.4, hr.5, fun t ht => hkept (ha.6 t ht),
    fun t ht => hkept (hr.7 t ht)⟩

end Repository

theorem precedes_cascade (s : Site) (op : Operation) : s.Precedes (s.cascade op) := by
  cases op with
  | deleteResource id now audit => exact Repository.precedes_deleteResource id now s
  | _ => exact .refl s

theorem access_cascade (s : Site) (op : Operation) : (s.cascade op).access = s.access := by
  cases op <;> rfl

open FlareAuth.TokenExchange.Repository in
/-- No operation deletes a row, takes back a consumption or a revocation, or breaks an index. -/
theorem precedes_perform (op : SiteOperation) (s : Site) : s.Precedes (op.perform s) := by
  have hsettle : ∀ {α : Type} {b : SiteBatch α}, Batch.Within Site.Precedes b →
      s.Precedes (b.settle s) := fun h => h.settle .refl s
  cases op with
  | read => exact .refl s
  | access op =>
    change s.Precedes (if op.keepsResources then { s.cascade op with access := op.perform s.access }
      else s)
    split
    · refine (precedes_cascade s op).trans (.access ?_)
      rw [access_cascade]
      exact FlareAuth.precedes_perform op s.access
    · exact .refl s
  | clients rows =>
    exact ⟨⟨.refl _, .refl .refl _, .refl .refl _, .refl .refl _, .refl .refl _⟩,
      fun hs => ⟨hs.1, hs.2, hs.3, hs.4, hs.5, hs.6, hs.7⟩⟩
  | applications rows =>
    exact ⟨⟨.refl _, .refl .refl _, .refl .refl _, .refl .refl _, .refl .refl _⟩,
      fun hs => ⟨hs.1, hs.2, hs.3, hs.4, hs.5, hs.6, hs.7⟩⟩
  | createFederatedCredential input => exact hsettle (precedes_createFederatedCredential input)
  | updateFederatedCredential applicationId id patch =>
    exact hsettle (precedes_updateFederatedCredential applicationId id patch)
  | storeAccessToken input => exact hsettle (precedes_insertAccessToken input)
  | insertRefreshToken input => exact hsettle (precedes_insertRefreshToken input)
  | revokeRefreshToken id now => exact hsettle (precedes_revokeRefreshTokens _ now)
  | revokeRefreshTokenFamily familyId now => exact hsettle (precedes_revokeRefreshTokens _ now)
  | rotateRefreshToken rotation => exact hsettle (precedes_rotateRefreshToken rotation)
  | createConnectionIntent input => exact hsettle (precedes_createConnectionIntent input)
  | consumeConnectionIntent stateHash now =>
    exact hsettle (precedes_consumeConnectionIntent stateHash now)

theorem persists_evolution : Evolution SiteOperation Site.Persists :=
  ⟨.refl, fun _ _ _ => .trans, fun op s => (precedes_perform op s).persists⟩

end FlareAuth.TokenExchange
