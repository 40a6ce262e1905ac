import FlareAuth.Concurrent.Stamp
import FlareAuth.ExchangeContract
import FlareAuth.ExchangeHistory
import FlareAuth.TokenLeases

/-!
# The rotation of a refresh token

The batch of a rotation takes effect as a whole or not at all, as long as the
identifier of the successor is new, and in every interleaving it is.
-/

namespace FlareAuth.TokenExchange

open Concurrent Relational FlareAuth.TokenExchange.Repository

/-- The store after a rotation that takes effect. -/
def Site.rotated (s : Site) (r : Rotation) : Site :=
  { s with
    refreshTokens := updateWhere r.parentIsActive (fun t => { t with consumedAt := some r.now })
      (s.refreshTokens ++ [r.refreshToken])
    accessTokens := s.accessTokens ++ [r.accessToken] }

section Batch

variable {s : Site} {r : Rotation}

/-- The unique indexes and the credential admit the successor. -/
def Site.AdmitsRefreshToken (s : Site) (row : RefreshTokenRow) : Prop :=
  s.hasCredential row.grant.credentialId = true ∧
    ∀ t ∈ s.refreshTokens, t.id ≠ row.id ∧ t.tokenHash ≠ row.tokenHash ∧
      (row.parentId.isSome → t.parentId ≠ row.parentId)

def Site.AdmitsAccessToken (s : Site) (row : AccessTokenRow) : Prop :=
  s.hasCredential row.grant.credentialId = true ∧
    ∀ t ∈ s.accessTokens, t.id ≠ row.id ∧ t.tokenHash ≠ row.tokenHash

theorem insertRefreshToken_of_admits {row : RefreshTokenRow} (h : s.AdmitsRefreshToken row) :
    insertRefreshToken row s = .ok ((), { s with refreshTokens := s.refreshTokens ++ [row] }) := by
  have hclash : (s.refreshTokens.any fun t => t.id == row.id || t.tokenHash == row.tokenHash ||
      (row.parentId.isSome && t.parentId == row.parentId)) = false := by
    rw [List.any_eq_false]
    intro t ht
    obtain ⟨hid, hhash, hparent⟩ := h.2 t ht
    simpa [hid, hhash] using hparent
  unfold insertRefreshToken
  rw [if_neg (by simp [h.1]), if_neg (by simp [hclash])]

theorem insertRefreshToken_error {row : RefreshTokenRow} (h : ¬s.AdmitsRefreshToken row) :
    ∃ e, insertRefreshToken row s = .error e := by
  unfold insertRefreshToken
  by_cases hcredential : s.hasCredential row.grant.credentialId = true
  · rw [if_neg (by simp [hcredential])]
    by_cases hclash : (s.refreshTokens.any fun t => t.id == row.id ||
        t.tokenHash == row.tokenHash || (row.parentId.isSome && t.parentId == row.parentId)) = true
    · exact ⟨_, if_pos hclash⟩
    · refine absurd ⟨hcredential, fun t ht => ?_⟩ h
      have ht' := List.any_eq_false.mp (Bool.eq_false_iff.mpr hclash) t ht
      simpa [and_assoc] using ht'
  · exact ⟨_, if_pos (by simp [hcredential])⟩

theorem insertAccessToken_of_admits {row : AccessTokenRow} (h : s.AdmitsAccessToken row) :
    insertAccessToken row s = .ok ((), { s with accessTokens := s.accessTokens ++ [row] }) := by
  have hclash : (s.accessTokens.any fun t => t.id == row.id || t.tokenHash == row.tokenHash) =
      false := by
    rw [List.any_eq_false]
    intro t ht
    simp [h.2 t ht]
  unfold insertAccessToken
  rw [if_neg (by simp [h.1]), if_neg (by simp [hclash])]

theorem insertAccessToken_error {row : AccessTokenRow} (h : ¬s.AdmitsAccessToken row) :
    ∃ e, insertAccessToken row s = .error e := by
  unfold insertAccessToken
  by_cases hcredential : s.hasCredential row.grant.credentialId = true
  · rw [if_neg (by simp [hcredential])]
    by_cases hclash :
        (s.accessTokens.any fun t => t.id == row.id || t.tokenHash == row.tokenHash) = true
    · exact ⟨_, if_pos hclash⟩
    · refine absurd ⟨hcredential, fun t ht => ?_⟩ h
      have ht' := List.any_eq_false.mp (Bool.eq_false_iff.mpr hclash) t ht
      simpa using ht'
  · exact ⟨_, if_pos (by simp [hcredential])⟩

theorem insertSelected_of_selected {insert : SiteBatch Unit} (selected : Site → Bool) {t : Site}
    (hselected : selected s = true) (h : insert s = .ok ((), t)) :
    insertSelected insert selected s = .ok (true, t) := by
  unfold insertSelected
  rw [Batch.bind_of_ok (show Batch.read selected s = .ok (selected s, s) from rfl), hselected,
    if_pos rfl, Batch.bind_of_ok h]
  rfl

theorem insertSelected_of_error {insert : SiteBatch Unit} (selected : Site → Bool) {e : Failure}
    (hselected : selected s = true) (h : insert s = .error e) :
    insertSelected insert selected s = .error e := by
  unfold insertSelected
  rw [Batch.bind_of_ok (show Batch.read selected s = .ok (selected s, s) from rfl), hselected,
    if_pos rfl, Batch.bind_of_error h]

theorem insertSelected_of_not (insert : SiteBatch Unit) (selected : Site → Bool)
    (hselected : selected s = false) : insertSelected insert selected s = .ok (false, s) := by
  unfold insertSelected
  rw [Batch.bind_of_ok (show Batch.read selected s = .ok (selected s, s) from rfl), hselected]
  rfl

/-- A rotation takes effect, is refused by an index, or finds no active parent. -/
theorem rotateRefreshToken_cases (hfresh : ∀ t ∈ s.refreshTokens, t.id ≠ r.refreshToken.id) :
    (s.refreshTokens.any r.parentIsActive = true ∧ s.AdmitsRefreshToken r.refreshToken ∧
      rotateRefreshToken r s = .ok (true, s.rotated r)) ∨
    (∃ e, rotateRefreshToken r s = .error e) ∨
    (s.refreshTokens.any r.parentIsActive = false ∧ rotateRefreshToken r s = .ok (false, s)) := by
  unfold rotateRefreshToken
  by_cases hparent : s.refreshTokens.any r.parentIsActive = true
  · by_cases hrefresh : s.AdmitsRefreshToken r.refreshToken
    · have hinsert := insertSelected_of_selected (fun s => s.refreshTokens.any r.parentIsActive)
        hparent (insertRefreshToken_of_admits hrefresh)
      rw [Batch.bind_of_ok hinsert]
      set mid : Site := { s with refreshTokens := s.refreshTokens ++ [r.refreshToken] }
      have hparents : mid.refreshTokens.any r.parentIsActive = true := by
        simp only [mid, List.any_append, hparent, Bool.true_or]
      have hconsume : consumeParent r mid = .ok (true, { mid with
          refreshTokens := updateWhere r.parentIsActive
            (fun t => { t with consumedAt := some r.now })
            mid.refreshTokens }) := by
        rw [← hparents]
        rfl
      rw [Batch.bind_of_ok hconsume]
      set consumed : Site := { mid with
        refreshTokens := updateWhere r.parentIsActive (fun t => { t with consumedAt := some r.now })
          mid.refreshTokens }
      have hchild : (consumed.refreshTokens.any fun t => t.id == r.refreshToken.id) = true := by
        refine List.any_eq_true.mpr ⟨_, mem_updateWhere.mpr ⟨r.refreshToken, ?_, rfl⟩, ?_⟩
        · exact List.mem_append_right _ List.mem_cons_self
        · split <;> simp
      by_cases haccess : consumed.AdmitsAccessToken r.accessToken
      · have hstore := insertSelected_of_selected
          (fun s => s.refreshTokens.any fun t => t.id == r.refreshToken.id) hchild
          (insertAccessToken_of_admits haccess)
        rw [Batch.bind_of_ok hstore]
        exact .inl ⟨hparent, hrefresh, rfl⟩
      · obtain ⟨e, he⟩ := insertAccessToken_error haccess
        have hstore := insertSelected_of_error
          (fun s => s.refreshTokens.any fun t => t.id == r.refreshToken.id) hchild he
        exact .inr (.inl ⟨e, Batch.bind_of_error hstore⟩)
    · obtain ⟨e, he⟩ := insertRefreshToken_error hrefresh
      have hinsert := insertSelected_of_error (fun s => s.refreshTokens.any r.parentIsActive)
        hparent he
      exact .inr (.inl ⟨e, Batch.bind_of_error hinsert⟩)
  · rw [Bool.not_eq_true] at hparent
    have hconsume : consumeParent r s = .ok (false, s) := by
      have hsame : updateWhere r.parentIsActive (fun t => { t with consumedAt := some r.now })
          s.refreshTokens = s.refreshTokens :=
        updateWhere_eq_self fun t ht hactive =>
          absurd hactive (List.any_eq_false.mp hparent t ht)
      change Except.ok (s.refreshTokens.any r.parentIsActive, ({ s with
        refreshTokens := updateWhere r.parentIsActive (fun t => { t with consumedAt := some r.now })
          s.refreshTokens } : Site)) = _
      rw [hparent, hsame]
    have hchild : (s.refreshTokens.any fun t => t.id == r.refreshToken.id) = false := by
      rw [List.any_eq_false]
      exact fun t ht => by simpa using hfresh t ht
    have hinsert := insertSelected_of_not (insertRefreshToken r.refreshToken)
      (fun s => s.refreshTokens.any r.parentIsActive) hparent
    have hstore := insertSelected_of_not (insertAccessToken r.accessToken)
      (fun s => s.refreshTokens.any fun t => t.id == r.refreshToken.id) hchild
    rw [Batch.bind_of_ok hinsert, Batch.bind_of_ok hconsume, Batch.bind_of_ok hstore]
    exact .inr (.inr ⟨hparent, rfl⟩)

end Batch

section Rows

def SiteOperation.storedRefreshToken : SiteOperation → Option RefreshTokenRow
  | .insertRefreshToken row => some row
  | .rotateRefreshToken r => some r.refreshToken
  | _ => none

def Site.SameRefreshTokens (s t : Site) : Prop := t.refreshTokens.length = s.refreshTokens.length

theorem Site.SameRefreshTokens.refl (s : Site) : s.SameRefreshTokens s := rfl

theorem length_refreshTokens_perform {op : SiteOperation} {s : Site}
    (h : op.storedRefreshToken = none) :
    (op.perform s).refreshTokens.length = s.refreshTokens.length := by
  have hsettle : ∀ {α : Type} {b : SiteBatch α}, Batch.Within Site.SameRefreshTokens b →
      s.SameRefreshTokens (b.settle s) := fun h => h.settle Site.SameRefreshTokens.refl s
  cases op with
  | insertRefreshToken row => cases h
  | rotateRefreshToken r => cases h
  | read => rfl
  | clients rows => rfl
  | applications rows => rfl
  | access op =>
    change (if op.keepsResources then ({ s.cascade op with access := op.perform s.access } : Site)
      else s).refreshTokens.length = _
    split
    · cases op with
      | deleteResource id now audit => exact length_updateWhere _ _ _
      | _ => rfl
    · rfl
  | createFederatedCredential input =>
    refine hsettle fun s x t hs => ?_
    unfold Repository.createFederatedCredential at hs
    split at hs <;> cases hs
    rfl
  | updateFederatedCredential applicationId id patch => rfl
  | storeAccessToken row =>
    refine hsettle fun s x t hs => ?_
    unfold insertAccessToken at hs
    split at hs
    · cases hs
    · split at hs <;> cases hs
      rfl
  | revokeRefreshToken id now => exact length_updateWhere _ _ _
  | revokeRefreshTokenFamily familyId now => exact length_updateWhere _ _ _
  | createConnectionIntent input =>
    refine hsettle fun s x t hs => ?_
    unfold Repository.createConnectionIntent at hs
    split at hs
    · cases hs
      rfl
    · split at hs <;> cases hs
      rfl
  | consumeConnectionIntent stateHash now => rfl

/-- The refresh tokens of the second store are those of the first one and one stored row. -/
def Site.StoresOnly (row : RefreshTokenRow) (s t : Site) : Prop :=
  ∀ u ∈ t.refreshTokens, (∃ u₀ ∈ s.refreshTokens, u₀.Persists u) ∨ row.Persists u

theorem Site.StoresOnly.refl {row : RefreshTokenRow} (s : Site) : Site.StoresOnly row s s :=
  fun u hu => .inl ⟨u, hu, .refl u⟩

theorem Site.StoresOnly.trans {row : RefreshTokenRow} {s t u : Site}
    (h : Site.StoresOnly row s t) (h' : Site.StoresOnly row t u) : Site.StoresOnly row s u := by
  intro v hv
  rcases h' v hv with ⟨v₁, hv₁, hpersists⟩ | hrow
  · rcases h v₁ hv₁ with ⟨v₀, hv₀, hpersists₀⟩ | hrow
    · exact .inl ⟨v₀, hv₀, hpersists₀.trans hpersists⟩
    · exact .inr (hrow.trans hpersists)
  · exact .inr hrow

theorem storesOnly_insertRefreshToken (row : RefreshTokenRow) :
    Batch.Within (Site.StoresOnly row) (insertRefreshToken row) := by
  intro s x t hs u hu
  by_cases hadmits : s.AdmitsRefreshToken row
  · rw [insertRefreshToken_of_admits hadmits] at hs
    cases hs
    rcases List.mem_append.mp hu with hu | hu
    · exact .inl ⟨u, hu, .refl u⟩
    · obtain rfl := List.mem_singleton.mp hu
      exact .inr (.refl u)
  · obtain ⟨e, he⟩ := insertRefreshToken_error hadmits
    rw [he] at hs
    cases hs

theorem storesOnly_rotateRefreshToken (r : Rotation) :
    Batch.Within (Site.StoresOnly r.refreshToken) (rotateRefreshToken r) := by
  refine within_rotateRefreshToken .refl (fun _ _ _ => .trans) (storesOnly_insertRefreshToken _)
    (fun s u hu => ?_) fun s x t hs => ?_
  · obtain ⟨u₀, hu₀, rfl⟩ := mem_updateWhere.mp hu
    refine .inl ⟨u₀, hu₀, ?_⟩
    split
    · exact ⟨rfl, fun _ => rfl, fun h => h⟩
    · exact .refl u₀
  · unfold insertAccessToken at hs
    split at hs
    · cases hs
    · split at hs <;> cases hs
      exact .refl s

/-- A refresh token that is there after an operation was there before, or the operation stored
it. -/
theorem mem_refreshTokens_perform {op : SiteOperation} {s : Site} {t : RefreshTokenRow}
    (h : t ∈ (op.perform s).refreshTokens) :
    (∃ t₀ ∈ s.refreshTokens, t₀.Persists t) ∨
      ∃ row, op.storedRefreshToken = some row ∧ row.Persists t := by
  cases hstored : op.storedRefreshToken with
  | none =>
    have hevolves := (precedes_perform op s).persists.refreshTokens
    exact .inl (hevolves.exists_of_mem_later (length_refreshTokens_perform hstored) h)
  | some row =>
    have hstores : Site.StoresOnly row s (op.perform s) := by
      cases op with
      | insertRefreshToken input =>
        obtain rfl : input = row := Option.some.inj hstored
        exact (storesOnly_insertRefreshToken input).settle .refl s
      | rotateRefreshToken r =>
        obtain rfl : r.refreshToken = row := Option.some.inj hstored
        exact (storesOnly_rotateRefreshToken r).settle .refl s
      | _ => cases hstored
    exact (hstores t h).imp_right fun hrow => ⟨row, rfl, hrow⟩

end Rows

section Fresh

def SiteOperation.generates : SiteOperation → Prop
  | .access .generateId => True
  | _ => False

/-- The operation stores a refresh token under an identifier that was generated at a time. -/
def SiteOperation.usesId (op : SiteOperation) (n : ℕ) : Prop :=
  ∃ row, op.storedRefreshToken = some row ∧ row.id = "id-" ++ toString n

theorem SiteOperation.Quiet.unused {op : SiteOperation} (h : op.Quiet) (n : ℕ) :
    ¬op.usesId n := by
  rintro ⟨row, hrow, _⟩
  cases op <;> first | exact h.elim | cases hrow

/-- The event that generated an identifier which is about to be used. -/
theorem Generated.event {log : ExchangeLog} {id : Id} (h : Generated log id) {n : ℕ}
    (hid : id = "id-" ++ toString n) : ∃ d earlier,
      Log.Grown SiteOperation.Quiet (d :: earlier) log ∧ d.operation.generates ∧
        d.before.access.generated = n := by
  obtain ⟨s, earlier, hgrown, hnext⟩ := h
  exact ⟨_, earlier, hgrown, trivial,
    Text.toString_inj ((String.append_right_inj _).mp (hnext.symm.trans hid))⟩

theorem generated_evolution :
    Evolution SiteOperation fun s t : Site => s.access.generated ≤ t.access.generated :=
  ⟨fun _ => le_rfl, fun _ _ _ => le_trans,
    fun op s => (precedes_perform op s).persists.access.generated⟩

theorem generated_lt_perform (op : SiteOperation) (s : Site) (h : op.generates) :
    s.access.generated < (apply op s).access.generated := by
  cases op with
  | access op =>
    cases op with
    | generateId => exact Nat.lt_succ_self _
    | _ => exact h.elim
  | _ => exact h.elim

theorem unused_of_generates {op : SiteOperation} (n : ℕ) (h : op.generates) : ¬op.usesId n := by
  cases op with
  | access op =>
    have hquiet : (SiteOperation.access op).Quiet := trivial
    exact hquiet.unused n
  | _ => exact h.elim

theorem grounded_drawn {log : ExchangeLog} {s : Site} {op : SiteOperation}
    (h : Grounded log s op) :
    Drawn (fun s : Site => s.access.generated) SiteOperation.generates
      SiteOperation.usesId log op := by
  rintro n ⟨row, hrow, hid⟩
  have hgenerated : Generated log row.id := by
    cases op with
    | insertRefreshToken input =>
      obtain rfl : input = row := Option.some.inj hrow
      exact h.id
    | rotateRefreshToken r =>
      obtain rfl : r.refreshToken = row := Option.some.inj hrow
      obtain ⟨parent, hsucceeds⟩ := h
      exact hsucceeds.id
    | _ => cases hrow
  obtain ⟨d, earlier, hgrown, hgenerates, hstamp⟩ := hgenerated.event hid
  obtain ⟨new, hlog, hnew⟩ := hgrown
  exact ⟨d, earlier, ⟨new, hlog, fun e he m => (hnew e he).unused m⟩, hgenerates, hstamp⟩

variable [Locale] {ok : ExchangePool → Move Call → Prop} {pool : ExchangePool}

/-- The identifier of a refresh token that is about to be stored is new. -/
theorem fresh_of_pending (h : ExchangeReachable ok pool) {i : ℕ}
    {t : Thread Call Site SiteOperation Failure Reply} {op : SiteOperation}
    (hpending : pool.pending i = some (t, op)) {row : RefreshTokenRow}
    (hrow : op.storedRefreshToken = some row) : ∀ u ∈ pool.store.refreshTokens, u.id ≠ row.id := by
  intro u hu hid
  obtain ⟨_, hgrounded⟩ := h.pending_obeys program_contract hpending
  have hgenerated : ∃ n : ℕ, row.id = "id-" ++ toString n := by
    cases op with
    | insertRefreshToken input =>
      obtain rfl : input = row := Option.some.inj hrow
      obtain ⟨s, _, _, hnext⟩ := hgrounded.id
      exact ⟨_, hnext⟩
    | rotateRefreshToken r =>
      obtain rfl : r.refreshToken = row := Option.some.inj hrow
      obtain ⟨parent, hsucceeds⟩ := hgrounded
      obtain ⟨s, _, _, hnext⟩ := hsucceeds.id
      exact ⟨_, hnext⟩
    | _ => cases hrow
  obtain ⟨n, hn⟩ := hgenerated
  have hcause := h.cause (P := fun s => ∃ t ∈ s.refreshTokens, t.id = row.id)
    (fun s hs => by simp [hs.refreshTokens]) ⟨u, hu, hid⟩
  obtain ⟨v, hv, e, he, hbefore, t', ht', hid'⟩ := hcause
  rcases mem_refreshTokens_perform ht' with ⟨t₀, ht₀, hpersists⟩ | ⟨stored, hstored, hpersists⟩
  · exact hbefore ⟨t₀, ht₀, hpersists.id.symm.trans hid'⟩
  · refine h.unused generated_evolution generated_lt_perform (fun _ => unused_of_generates)
      program_contract (fun _ _ _ _ => grounded_drawn) hpending ⟨row, hrow, hn⟩ v hv e he ?_
    exact ⟨stored, hstored, hpersists.id.symm.trans (hid'.trans hn)⟩

end Fresh

end FlareAuth.TokenExchange
