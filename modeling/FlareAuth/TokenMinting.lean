import FlareAuth.RefreshFamilies
import FlareAuth.TokenRefresh

/-!
# When a rotation takes effect

The identifiers of the tokens that a rotation stores, and what their hashes are taken of, were
generated by the same call, so no unique index refuses the rows. A rotation therefore takes effect
exactly when its parent is active at that moment, and changes nothing otherwise.
-/

namespace FlareAuth.TokenExchange

open Concurrent Procedure Access Relational FlareAuth.TokenExchange.Repository

def SiteOperation.storedAccessToken : SiteOperation → Option AccessTokenRow
  | .storeAccessToken row => some row
  | .rotateRefreshToken r => some r.accessToken
  | _ => none

theorem SiteOperation.Quiet.stores_no_access {op : SiteOperation} (h : op.Quiet) :
    op.storedAccessToken = none := by
  cases op <;> first | rfl | exact h.elim

section Rows

/-- The access tokens of the second store are those of the first one and at most one stored row. -/
def Site.AddsOnly (row : Option AccessTokenRow) (s t : Site) : Prop :=
  ∀ u ∈ t.accessTokens, (∃ u₀ ∈ s.accessTokens, u₀.Persists u) ∨ ∃ r, row = some r ∧ r.Persists u

variable {row : Option AccessTokenRow} {s t u : Site}

theorem Site.AddsOnly.of_eq (h : t.accessTokens = s.accessTokens) : Site.AddsOnly row s t :=
  fun v hv => .inl ⟨v, h ▸ hv, .refl v⟩

theorem Site.AddsOnly.refl (s : Site) : Site.AddsOnly row s s := .of_eq rfl

theorem Site.AddsOnly.trans (h : Site.AddsOnly row s t) (h' : Site.AddsOnly row t u) :
    Site.AddsOnly row s u := by
  intro v hv
  rcases h' v hv with ⟨v₁, hv₁, hpersists⟩ | ⟨r, hr, hpersists⟩
  · rcases h v₁ hv₁ with ⟨v₀, hv₀, hpersists₀⟩ | ⟨r, hr, hpersists₀⟩
    · exact .inl ⟨v₀, hv₀, hpersists₀.trans hpersists⟩
    · exact .inr ⟨r, hr, hpersists₀.trans hpersists⟩
  · exact .inr ⟨r, hr, hpersists⟩

theorem addsOnly_insertAccessToken (r : AccessTokenRow) :
    Batch.Within (Site.AddsOnly (some r)) (insertAccessToken r) := by
  intro s x t hs u hu
  by_cases hadmits : s.AdmitsAccessToken r
  · rw [insertAccessToken_of_admits hadmits] at hs
    cases hs
    rcases List.mem_append.mp hu with hu | hu
    · exact .inl ⟨u, hu, .refl u⟩
    · obtain rfl := List.mem_singleton.mp hu
      exact .inr ⟨u, rfl, .refl u⟩
  · obtain ⟨e, he⟩ := insertAccessToken_error hadmits
    rw [he] at hs
    cases hs

theorem addsOnly_insertRefreshToken (r : RefreshTokenRow) :
    Batch.Within (Site.AddsOnly row) (insertRefreshToken r) := by
  intro s x t hs
  by_cases hadmits : s.AdmitsRefreshToken r
  · rw [insertRefreshToken_of_admits hadmits] at hs
    cases hs
    exact .of_eq rfl
  · obtain ⟨e, he⟩ := insertRefreshToken_error hadmits
    rw [he] at hs
    cases hs

theorem addsOnly_deleteResource (id : Id) (now : ℕ) (s : Site) :
    Site.AddsOnly row s (Repository.deleteResource id now s) := by
  intro u hu
  obtain ⟨u₀, hu₀, rfl⟩ := mem_updateWhere.mp hu
  refine .inl ⟨u₀, hu₀, ?_⟩
  split
  · exact ⟨rfl, fun _ => rfl⟩
  · exact .refl u₀

/-- An access token that is there after an operation was there before, or the operation stored
it. -/
theorem addsOnly_perform (op : SiteOperation) (s : Site) :
    Site.AddsOnly op.storedAccessToken s (op.perform s) := by
  have hsettle : ∀ {α : Type} {row : Option AccessTokenRow} {b : SiteBatch α},
      Batch.Within (Site.AddsOnly row) b → Site.AddsOnly row s (b.settle s) :=
    fun h => h.settle .refl s
  cases op with
  | storeAccessToken r => exact hsettle (addsOnly_insertAccessToken r)
  | insertRefreshToken r => exact hsettle (addsOnly_insertRefreshToken r)
  | rotateRefreshToken r =>
    exact hsettle (within_rotateRefreshToken .refl (fun _ _ _ => .trans)
      (addsOnly_insertRefreshToken _) (fun _ => .of_eq rfl) (addsOnly_insertAccessToken _))
  | access op =>
    change Site.AddsOnly none s (if op.keepsResources then
      ({ s.cascade op with access := op.perform s.access } : Site) else s)
    split
    · cases op with
      | deleteResource id now audit => exact addsOnly_deleteResource id now s
      | _ => exact .of_eq rfl
    · exact .refl s
  | createFederatedCredential input =>
    refine hsettle fun s x t hs => ?_
    unfold Repository.createFederatedCredential at hs
    split at hs <;> cases hs
    exact .of_eq rfl
  | createConnectionIntent input =>
    refine hsettle fun s x t hs => ?_
    unfold Repository.createConnectionIntent at hs
    split at hs
    · cases hs
      exact .refl s
    · split at hs <;> cases hs
      exact .of_eq rfl
  | _ => exact .of_eq rfl

end Rows

section Minting

/-- The token was made of an identifier that the call has generated. -/
def MintedRefresh (log : ExchangeLog) (row : RefreshTokenRow) : Prop :=
  ∃ random, row.tokenHash = sha256 (refreshTokenPrefix ++ random) ∧ Generated log random

structure MintedAccess (log : ExchangeLog) (row : AccessTokenRow) : Prop where
  id : Generated log row.id
  tokenHash : ∃ i : AccessTokenInput, row.tokenHash = sha256 i.payload ∧ Generated log i.jti

def Minted (log : ExchangeLog) (_ : Site) : SiteOperation → Prop
  | .storeAccessToken row => MintedAccess log row
  | .insertRefreshToken row => MintedRefresh log row
  | .rotateRefreshToken r => MintedRefresh log r.refreshToken ∧ MintedAccess log r.accessToken
  | _ => True

variable {α β : Type} {log new : ExchangeLog} {id : Id}

theorem Generated.append (h : Generated new id) (log : ExchangeLog) :
    Generated (new ++ log) id := by
  obtain ⟨s, earlier, ⟨later, hnew, hlater⟩, hid⟩ := h
  refine ⟨s, earlier ++ log, ⟨later, ?_, hlater⟩, hid⟩
  rw [hnew, List.append_assoc, List.cons_append]

/-- What was generated stays so while the call stores nothing. -/
theorem Generated.later (h : Generated log id) (hnew : ∀ d ∈ new, d.operation.Quiet) :
    Generated (new ++ log) id := h.after ⟨new, rfl, hnew⟩

/-- A procedure that stores only tokens which it has minted. -/
abbrev Mints (p : Exchange α) (log : ExchangeLog) : Prop := p.Obeys Minted (fun _ _ => True) log

theorem minted_of_quiet {log : ExchangeLog} {s : Site} {op : SiteOperation} (h : op.Quiet) :
    Minted log s op := by
  cases op <;> first | exact trivial | exact h.elim

theorem mints_quiet {p : Exchange α} (h : p.Quiet) : Mints p log :=
  h.obeys (fun _ _ _ => minted_of_quiet) (fun _ _ _ _ => trivial) fun _ _ _ => trivial

theorem mints_bind {p : Exchange α} {f : α → Exchange β} (h : Mints p log)
    (hf : ∀ log' a, Mints (f a) log') : Mints (p >>= f) log :=
  Obeys.bind h (fun log' a _ _ => hf log' a) fun _ _ _ => trivial

theorem mints_quiet_bind {p : Exchange α} {P : α → ExchangeLog → Prop} {f : α → Exchange β}
    (hp : p.Quiet) (h : p.Leaves P)
    (hf : ∀ new a, P a new → (∀ d ∈ new, d.operation.Quiet) → Mints (f a) (new ++ log)) :
    Mints (p >>= f) log :=
  h.obeys_bind hp (fun _ _ _ => minted_of_quiet) hf fun _ _ _ => trivial

theorem mints_commit {op : SiteOperation} {batch : SiteBatch α} (h : ∀ s, Minted log s op) :
    Mints (commit op batch) log := fun s => ⟨h s, mints_quiet (only_ofExcept _)⟩

theorem leaves_generateId : (onAccess generateId).Leaves fun id log => Generated log id :=
  fun s => ⟨s, [], .refl _, rfl⟩

/-- A part of a call that stores nothing, with what it leaves. -/
theorem quiet_leaves {p : Exchange α} {P : α → ExchangeLog → Prop} (hp : p.Quiet)
    (h : p.Leaves P) : p.Leaves fun a log => P a log ∧ ∀ d ∈ log, d.operation.Quiet :=
  (h.and hp.leaves).mono fun _ _ ⟨ha, _, hlog⟩ => ⟨ha, hlog⟩

theorem leaves_mintedRefreshToken (familyId : Id) (parentId : Option Id) (grant : TokenGrant) :
    (prepareRefreshToken familyId parentId grant).Leaves fun prepared log =>
      prepared.2.tokenHash = sha256 prepared.1 ∧ MintedRefresh log prepared.2 := by
  refine leaves_generateId.bind fun random log₀ hrandom => ?_
  refine (quiet_leaves (by simp) (leaves_true _)).bind fun now log₁ ⟨_, hlog₁⟩ => ?_
  refine (quiet_leaves (by simp) (leaves_true _)).bind fun id log₂ ⟨_, hlog₂⟩ => ?_
  refine ⟨rfl, random, rfl, ?_⟩
  simpa using (hrandom.later hlog₁).later hlog₂

/-- The rows of a rotation, and the texts that they are the hashes of. -/
theorem leaves_mintedRotation (row : RefreshTokenRow) (clientId issuer : String)
    (scopes : List String) (now : ℕ) :
    (prepareRotation row clientId issuer scopes now).Leaves fun prepared log =>
      prepared.2.2.refreshToken.tokenHash = sha256 prepared.1 ∧
      prepared.2.2.accessToken.tokenHash = sha256 prepared.2.1 ∧
      MintedRefresh log prepared.2.2.refreshToken ∧ MintedAccess log prepared.2.2.accessToken := by
  refine leaves_generateId.bind fun jti log₀ hjti => ?_
  refine (quiet_leaves (by simp) (leaves_mintedRefreshToken _ _ _)).bind
    fun ⟨token, record⟩ log₁ ⟨⟨htoken, hminted⟩, hlog₁⟩ => ?_
  refine (quiet_leaves (by simp) leaves_generateId).bind fun id log₂ ⟨hid, hlog₂⟩ => ?_
  refine (quiet_leaves (by simp) (leaves_true _)).bind fun rotatedAt log₃ ⟨_, hlog₃⟩ => ?_
  obtain ⟨random, hhash, hrandom⟩ := hminted
  simp only [List.append_assoc]
  refine ⟨htoken, rfl, ⟨random, hhash, ?_⟩, (hid.append _).later hlog₃, _, rfl, ?_⟩
  · exact ((hrandom.append log₀).later hlog₂).later hlog₃
  · exact ((hjti.later hlog₁).later hlog₂).later hlog₃

theorem mints_issueRefreshToken (familyId : Id) (grant : TokenGrant) :
    Mints (issueRefreshToken familyId grant) log := by
  refine mints_quiet_bind (by simp) (leaves_mintedRefreshToken _ _ _)
    fun new ⟨token, row⟩ ⟨_, hminted⟩ _ => ?_
  obtain ⟨random, hhash, hrandom⟩ := hminted
  have hstores : Mints (storeRefreshToken row) (new ++ log) := by
    refine mints_bind (mints_commit fun _ => ⟨random, hhash, hrandom.append log⟩)
      fun _ _ => mints_quiet ?_
    simp [SiteOperation.Quiet]
  exact mints_bind hstores fun _ _ => mints_quiet (by simp)

theorem mints_exchangeFederatedToken (input : TokenExchangeRequest) (client : ClientCredentials)
    (issuer : String) : Mints (exchangeFederatedToken input client issuer) [] := by
  refine mints_quiet_bind (by simp) (leaves_true _) fun _ authenticated _ _ => ?_
  obtain ⟨oauthClient, application⟩ := authenticated
  refine mints_quiet_bind (by simp) (leaves_true _) fun _ _ _ _ => ?_
  refine mints_quiet_bind (by simp) (leaves_true _) fun _ trust _ _ => ?_
  obtain ⟨credential, subject, scopes, exp⟩ := trust
  refine mints_quiet_bind (by simp) (leaves_true _) fun _ now _ _ => ?_
  refine mints_quiet_bind (by simp) leaves_generateId fun _ jti hjti _ => ?_
  refine mints_quiet_bind (by simp) leaves_generateId fun _ id hid hquiet => ?_
  refine mints_bind (mints_commit fun _ => ⟨hid.append _, _, rfl, (hjti.append _).later hquiet⟩)
    fun _ _ => ?_
  dsimp only
  split
  · refine mints_quiet_bind (by simp) (leaves_true _) fun _ familyId _ _ => ?_
    refine mints_bind ?_ fun _ _ => trivial
    exact mints_bind (mints_issueRefreshToken _ _) fun _ _ => trivial
  · exact trivial

theorem mints_refreshToken (input : TokenRefreshRequest) (client : ClientCredentials)
    (issuer : String) : Mints (refreshToken input client issuer) [] := by
  refine mints_quiet_bind (by simp) (leaves_true _) fun _ presented _ _ => ?_
  obtain ⟨oauthClient, application, row, now⟩ := presented
  dsimp only
  split
  · exact mints_quiet (by simp)
  refine mints_quiet_bind (by simp) (leaves_true _) fun _ _ _ _ => ?_
  refine mints_quiet_bind (by simp) (leaves_true _) fun _ eligible _ _ => ?_
  split
  · exact mints_quiet (by simp)
  refine mints_quiet_bind (by simp) (leaves_true _) fun _ scopes _ _ => ?_
  refine mints_quiet_bind (by simp [prepareRotation]) (leaves_mintedRotation _ _ _ _ _)
    fun new prepared hprepared _ => ?_
  obtain ⟨token, accessToken, r⟩ := prepared
  obtain ⟨_, _, hrefresh, haccess⟩ := hprepared
  refine mints_bind (mints_commit fun _ => ⟨?_, ?_⟩) fun _ stored => mints_quiet (by simp)
  · obtain ⟨random, hhash, hrandom⟩ := hrefresh
    exact ⟨random, hhash, hrandom.append _⟩
  · obtain ⟨i, hhash, hjti⟩ := haccess.tokenHash
    exact ⟨haccess.id.append _, i, hhash, hjti.append _⟩

variable [Locale]

theorem program_minted (call : Call) : call.program.Obeys Minted (fun _ _ => True) [] := by
  have hreturns : ∀ {α : Type} {p : Exchange α} {reply : α → Reply}, Mints p [] →
      Mints (p >>= fun a => done (reply a)) [] := fun h => mints_bind h fun _ _ => trivial
  cases call with
  | access call => exact hreturns (mints_quiet (quiet_onAccess _))
  | createResourceConnectionIntent resourceId input actorUserId =>
    exact hreturns (mints_quiet (quiet_createResourceConnectionIntent resourceId input actorUserId))
  | completeResourceConnectionIntent state provider =>
    exact hreturns (mints_quiet (quiet_completeResourceConnectionIntent state provider))
  | failResourceConnectionIntent state =>
    refine hreturns (mints_quiet ?_)
    simp [failResourceConnectionIntent, quiet_consumeResourceConnectionIntent]
  | exchangeToken input client issuer =>
    exact hreturns (mints_exchangeFederatedToken input client issuer)
  | refreshToken input client issuer => exact hreturns (mints_refreshToken input client issuer)
  | createFederatedCredential applicationId input =>
    exact hreturns (mints_quiet (quiet_createFederatedCredential applicationId input))
  | updateFederatedCredential applicationId id patch keys =>
    exact hreturns (mints_quiet (quiet_updateFederatedCredential applicationId id patch keys))
  | clients rows => exact fun s => ⟨trivial, trivial⟩
  | applications rows => exact fun s => ⟨trivial, trivial⟩

end Minting

section Fresh

/-- The signed payload ends with the identifier of the token. -/
theorem AccessTokenInput.jti_of_payload {i j : AccessTokenInput} (h : i.payload = j.payload) :
    i.jti = j.jti := by
  unfold AccessTokenInput.payload at h
  have hfields := Json.object.inj h
  have hlast := congrArg (fun fields => fields.reverse.head?) hfields
  simpa using hlast

variable [Locale] {ok : ExchangePool → Move Call → Prop} {pool : ExchangePool} {i : ℕ}
  {t : Thread Call Site SiteOperation Failure Reply} {op : SiteOperation}

theorem fresh_hash_of_pending (h : ExchangeReachable ok pool)
    (hpending : pool.pending i = some (t, op)) {row : RefreshTokenRow}
    (hrow : op.storedRefreshToken = some row) :
    ∀ u ∈ pool.store.refreshTokens, u.tokenHash ≠ row.tokenHash := by
  have hminted : ∀ {log s op row}, Minted log s op → op.storedRefreshToken = some row →
      MintedRefresh log row := by
    intro log s op row hop hrow
    cases op with
    | insertRefreshToken input =>
      obtain rfl : input = row := Option.some.inj hrow
      exact hop
    | rotateRefreshToken r =>
      obtain rfl : r.refreshToken = row := Option.some.inj hrow
      exact hop.1
    | _ => cases hrow
  obtain ⟨_, hop⟩ := h.pending_obeys program_minted hpending
  obtain ⟨random, hhash, s, _, _, hnext⟩ := hminted hop hrow
  have hunused := unused_of_pending Site.refreshTokens SiteOperation.storedRefreshToken
    (fun u n => u.tokenHash = sha256 (refreshTokenPrefix ++ ("id-" ++ toString n)))
    (fun s hs => hs.refreshTokens) (fun _ _ _ => mem_refreshTokens_perform)
    (fun _ => SiteOperation.Quiet.stores_none) program_minted
    (fun t u n hpersists hu => hpersists.tokenHash.symm.trans hu)
    (fun c log s op row n hG hrow hn => ?_) h hpending hrow (hhash.trans (by rw [hnext]; rfl))
  · intro u hu hsame
    refine hunused u hu (hsame.trans (hhash.trans ?_))
    rw [hnext]
    rfl
  · obtain ⟨random, hhash, hrandom⟩ := hminted hG hrow
    have htext : refreshTokenPrefix ++ random = refreshTokenPrefix ++ ("id-" ++ toString n) :=
      Digest.mk.inj (hhash.symm.trans hn)
    rwa [← (String.append_right_inj _).mp htext]

/-- The identifier and the hash of an access token that is about to be stored are new. -/
theorem fresh_access_of_pending (h : ExchangeReachable ok pool)
    (hpending : pool.pending i = some (t, op)) {row : AccessTokenRow}
    (hrow : op.storedAccessToken = some row) :
    ∀ u ∈ pool.store.accessTokens, u.id ≠ row.id ∧ u.tokenHash ≠ row.tokenHash := by
  have hminted : ∀ {log s op row}, Minted log s op → op.storedAccessToken = some row →
      MintedAccess log row := by
    intro log s op row hop hrow
    cases op with
    | storeAccessToken input =>
      obtain rfl : input = row := Option.some.inj hrow
      exact hop
    | rotateRefreshToken r =>
      obtain rfl : r.accessToken = row := Option.some.inj hrow
      exact hop.2
    | _ => cases hrow
  obtain ⟨_, hop⟩ := h.pending_obeys program_minted hpending
  obtain ⟨s, _, _, hid⟩ := (hminted hop hrow).id
  obtain ⟨signed, hhash, s', _, _, hjti⟩ := (hminted hop hrow).tokenHash
  have hids := unused_of_pending Site.accessTokens SiteOperation.storedAccessToken
    (fun u n => u.id = "id-" ++ toString n)
    (fun s hs => hs.accessTokens) (fun op s => addsOnly_perform op s)
    (fun _ => SiteOperation.Quiet.stores_no_access) program_minted
    (fun t u n hpersists hu => hpersists.id.symm.trans hu)
    (fun c log s op row n hG hrow hn => hn ▸ (hminted hG hrow).id) h hpending hrow hid
  have hhashes := unused_of_pending Site.accessTokens SiteOperation.storedAccessToken
    (fun u n => ∃ j : AccessTokenInput, u.tokenHash = sha256 j.payload ∧
      j.jti = "id-" ++ toString n)
    (fun s hs => hs.accessTokens) (fun op s => addsOnly_perform op s)
    (fun _ => SiteOperation.Quiet.stores_no_access) program_minted
    (fun t u n hpersists ⟨j, hj, hn⟩ => ⟨j, hpersists.tokenHash.symm.trans hj, hn⟩)
    (fun c log s op row n hG hrow ⟨j, hj, hn⟩ => ?_) h hpending hrow ⟨signed, hhash, hjti⟩
  · intro u hu
    refine ⟨fun hsame => hids u hu (hsame.trans hid), fun hsame => ?_⟩
    exact hhashes u hu ⟨signed, hsame.trans hhash, hjti⟩
  · obtain ⟨i, hi, hdrawn⟩ := (hminted hG hrow).tokenHash
    have hpayload : i.payload = j.payload := Digest.mk.inj (hi.symm.trans hj)
    rwa [← hn, ← AccessTokenInput.jti_of_payload hpayload]

end Fresh

section Rotations

variable {s : Site} {r : Rotation}

/-- A rotation whose rows the indexes admit and that finds its parent active takes effect. -/
theorem rotateRefreshToken_of_admits (hparent : s.refreshTokens.any r.parentIsActive = true)
    (hrefresh : s.AdmitsRefreshToken r.refreshToken) (haccess : s.AdmitsAccessToken r.accessToken) :
    rotateRefreshToken r s = .ok (true, s.rotated r) := by
  set stored : Site := { s with refreshTokens := s.refreshTokens ++ [r.refreshToken] }
  set consumed : Site := { stored with
    refreshTokens := updateWhere r.parentIsActive (fun t => { t with consumedAt := some r.now })
      stored.refreshTokens }
  have hinsert := insertSelected_of_selected (fun s => s.refreshTokens.any r.parentIsActive)
    hparent (insertRefreshToken_of_admits hrefresh)
  have hparents : stored.refreshTokens.any r.parentIsActive = true := by
    simp only [stored, List.any_append, hparent, Bool.true_or]
  have hconsume : consumeParent r stored = .ok (true, consumed) := by
    rw [← hparents]
    rfl
  have hchild : (consumed.refreshTokens.any fun t => t.id == r.refreshToken.id) = true := by
    refine List.any_eq_true.mpr ⟨_, mem_updateWhere.mpr ⟨r.refreshToken, ?_, rfl⟩, ?_⟩
    · exact List.mem_append_right _ List.mem_cons_self
    · split <;> simp
  have hadmits : consumed.AdmitsAccessToken r.accessToken := haccess
  have hstore := insertSelected_of_selected
    (fun s => s.refreshTokens.any fun t => t.id == r.refreshToken.id) hchild
    (insertAccessToken_of_admits hadmits)
  unfold rotateRefreshToken
  rw [Batch.bind_of_ok hinsert, Batch.bind_of_ok hconsume, Batch.bind_of_ok hstore]
  rfl

/-- A rotation that finds no active parent writes nothing. -/
theorem rotateRefreshToken_of_inactive (hparent : s.refreshTokens.any r.parentIsActive = false)
    (hfresh : ∀ t ∈ s.refreshTokens, t.id ≠ r.refreshToken.id) :
    rotateRefreshToken r s = .ok (false, s) := by
  have hsame : updateWhere r.parentIsActive (fun t => { t with consumedAt := some r.now })
      s.refreshTokens = s.refreshTokens :=
    updateWhere_eq_self fun t ht hactive => absurd hactive (List.any_eq_false.mp hparent t ht)
  have hconsume : consumeParent r s = .ok (false, s) := by
    change Except.ok (s.refreshTokens.any r.parentIsActive, ({ s with
      refreshTokens := updateWhere r.parentIsActive (fun t => { t with consumedAt := some r.now })
        s.refreshTokens } : Site)) = _
    rw [hparent, hsame]
  have hchild : (s.refreshTokens.any fun t => t.id == r.refreshToken.id) = false := by
    rw [List.any_eq_false]
    exact fun t ht => by simpa using hfresh t ht
  have hinsert := insertSelected_of_not (insertRefreshToken r.refreshToken)
    (fun s => s.refreshTokens.any r.parentIsActive) hparent
  have hstore := insertSelected_of_not (insertAccessToken r.accessToken)
    (fun s => s.refreshTokens.any fun t => t.id == r.refreshToken.id) hchild
  unfold rotateRefreshToken
  rw [Batch.bind_of_ok hinsert, Batch.bind_of_ok hconsume, Batch.bind_of_ok hstore]
  rfl

variable [Locale] {ok : ExchangePool → Move Call → Prop} {pool : ExchangePool} {i : ℕ}
  {t : Thread Call Site SiteOperation Failure Reply}

/-- A token that has a successor is consumed, so an active parent has none yet. -/
theorem no_successor_of_active (h : ExchangeReachable ok pool) {p : RefreshTokenRow}
    (hp : p ∈ pool.store.refreshTokens) (hconsumed : p.consumedAt = none) :
    ∀ u ∈ pool.store.refreshTokens, u.parentId ≠ some p.id := by
  intro u hu hparent
  have hmem : u ∈ pool.store.refreshTokens.filter fun t => t.familyId = u.familyId := by
    simpa using hu
  obtain ⟨q, hq, hid, hspent⟩ := (lines_of_reachable h u.familyId).exists_parent hmem hparent
  obtain ⟨hq, _⟩ := List.mem_filter.mp hq
  obtain rfl := eq_of_key_eq (valid_of_reachable h).refreshIds hq hp hid
  rw [RefreshTokenRow.isConsumed, hconsumed] at hspent
  cases hspent

/-- In every interleaving a rotation takes effect if its parent is neither consumed nor revoked by
then, and is a no-op that answers so otherwise: it is never refused by an index, and never in
part. -/
theorem rotation_takes_effect_iff (h : ExchangeReachable ok pool)
    (hpending : pool.pending i = some (t, .rotateRefreshToken r)) :
    (rotateRefreshToken r).outcome pool.store =
      .ok (pool.store.refreshTokens.any r.parentIsActive) ∧
    apply (SiteOperation.rotateRefreshToken r) pool.store =
      if pool.store.refreshTokens.any r.parentIsActive then pool.store.rotated r
      else pool.store := by
  have hfresh := fresh_of_pending h hpending rfl
  have hbatch : rotateRefreshToken r pool.store =
      .ok (pool.store.refreshTokens.any r.parentIsActive,
        if pool.store.refreshTokens.any r.parentIsActive then pool.store.rotated r
        else pool.store) := by
    by_cases hactive : pool.store.refreshTokens.any r.parentIsActive = true
    · obtain ⟨p, hp, hparent, hconsumed, _, _⟩ := exists_active_parent hactive
      obtain ⟨_, hcredential⟩ := succeeds_active_parent h hpending hp hparent
      obtain ⟨_, parent, hsucceeds⟩ := h.pending_obeys program_contract hpending
      have hknown : pool.store.hasCredential r.refreshToken.grant.credentialId = true := by
        rw [hcredential]
        exact (valid_of_reachable h).refreshCredentials p hp
      rw [hactive, if_pos rfl]
      refine rotateRefreshToken_of_admits hactive ⟨hknown, fun u hu => ?_⟩ ⟨?_, ?_⟩
      · refine ⟨hfresh u hu, fresh_hash_of_pending h hpending rfl u hu, fun _ => ?_⟩
        rw [hparent]
        exact no_successor_of_active h hp hconsumed u hu
      · rw [hsucceeds.grant]
        exact hknown
      · exact fresh_access_of_pending h hpending rfl
    · rw [Bool.not_eq_true] at hactive
      rw [rotateRefreshToken_of_inactive hactive hfresh, hactive, if_neg Bool.false_ne_true]
  constructor
  · rw [Batch.outcome, hbatch]
  · rw [apply_eq, SiteOperation.perform, Batch.settle_of_ok hbatch]

end Rotations

namespace Sample

/-- A refresh of the token of an exchange, up to its rotation. -/
def aboutToRotate (pool : ExchangePool) : Bool :=
  match pool.pending 1 with
  | some (_, .rotateRefreshToken r) => pool.store.refreshTokens.any r.parentIsActive
  | _ => false

set_option maxRecDepth 10000 in
theorem rotation_takes_effect : ∃ (pool : ExchangePool) (r : Rotation),
    (rotateRefreshToken r).outcome pool.store = .ok true := by
  have hrun : (run (exchangeAndRefresh.dropLast)).any aboutToRotate = true := by decide +kernel
  obtain ⟨pool, hpool, hcheck⟩ := reachable_of_run hrun
  unfold aboutToRotate at hcheck
  split at hcheck
  · rename_i t r hpending
    refine ⟨pool, r, ?_⟩
    rw [(rotation_takes_effect_iff hpool hpending).1, hcheck]
  · cases hcheck

end Sample

end FlareAuth.TokenExchange
