import FlareAuth.DeletedResources
import FlareAuth.Relational.Lineage
import FlareAuth.TokenRotation

/-!
# Families of refresh tokens

Each family is a line: it begins with the token of an exchange, each later token was stored by the
rotation of the one before, and a token is consumed when its successor comes. What makes it so is
that the batch of a rotation finds its parent active, and that the identifier of a new family is
fresh, in every interleaving.
-/

namespace FlareAuth.TokenExchange

open Concurrent Relational FlareAuth.TokenExchange.Repository

def RefreshTokenRow.isConsumed (t : RefreshTokenRow) : Bool := t.consumedAt.isSome

def Site.family (s : Site) (id : Id) : List RefreshTokenRow :=
  s.refreshTokens.filter fun t => t.familyId = id

def Site.FamiliesAreLines (s : Site) : Prop :=
  Lineages RefreshTokenRow.id RefreshTokenRow.parentId RefreshTokenRow.isConsumed
    RefreshTokenRow.familyId s.refreshTokens

theorem RefreshTokenRow.Persists.ages {t u : RefreshTokenRow} (h : t.Persists u) :
    Ages RefreshTokenRow.id RefreshTokenRow.parentId RefreshTokenRow.isConsumed t u :=
  ⟨h.id, h.parentId, h.consumed⟩

theorem SiteOperation.Quiet.stores_none {op : SiteOperation} (h : op.Quiet) :
    op.storedRefreshToken = none := by
  cases op <;> first | rfl | exact h.elim

theorem SiteOperation.generates.quiet {op : SiteOperation} (h : op.generates) : op.Quiet := by
  cases op <;> first | exact trivial | exact h.elim

section Steps

variable {s : Site} {op : SiteOperation} {row : RefreshTokenRow} {r : Rotation}

theorem lines_perform_of_none (h : s.FamiliesAreLines) (hop : op.storedRefreshToken = none) :
    (op.perform s).FamiliesAreLines := by
  have hevolves := (precedes_perform op s).persists.refreshTokens
  have hpersists := hevolves.forall₂ (length_refreshTokens_perform hop)
  exact h.ages (hpersists.imp fun t u htu => ⟨htu.ages, htu.familyId⟩)

/-- The insert of a token that starts a family. -/
theorem lines_insert (h : s.FamiliesAreLines) (hparent : row.parentId = none)
    (hnew : ∀ t ∈ s.refreshTokens, t.familyId ≠ row.familyId) :
    ((insertRefreshToken row).settle s).FamiliesAreLines := by
  by_cases hadmits : s.AdmitsRefreshToken row
  · rw [Batch.settle_of_ok (insertRefreshToken_of_admits hadmits)]
    exact Lineages.start h hnew hparent
  · obtain ⟨e, he⟩ := insertRefreshToken_error hadmits
    rw [Batch.settle_of_error he]
    exact h

/-- The active parent of a rotation, which no other row shares its identifier with. -/
theorem exists_active_parent (h : s.refreshTokens.any r.parentIsActive = true) :
    ∃ p ∈ s.refreshTokens, r.refreshToken.parentId = some p.id ∧ p.consumedAt = none ∧
      p.revokedAt = none ∧ r.parentIsActive p = true := by
  obtain ⟨p, hp, hactive⟩ := List.any_eq_true.mp h
  have hcolumns := hactive
  simp only [Rotation.parentIsActive, Bool.and_eq_true, beq_iff_eq, Option.isNone_iff_eq_none]
    at hcolumns
  exact ⟨p, hp, hcolumns.1.1.symm, hcolumns.1.2, hcolumns.2, hactive⟩

theorem lines_rotated (h : s.FamiliesAreLines) {p : RefreshTokenRow} (hp : p ∈ s.refreshTokens)
    (hconsumed : p.consumedAt = none) (hactive : r.parentIsActive p = true)
    (hparent : r.refreshToken.parentId = some p.id)
    (hfamily : r.refreshToken.familyId = p.familyId) (hfresh : r.refreshToken.id ≠ p.id) :
    (s.rotated r).FamiliesAreLines := by
  refine Lineages.succeed h hp ?_ hactive ?_ (fun t => ⟨⟨rfl, rfl, fun _ => rfl⟩, rfl, rfl⟩)
    hparent hfamily
  · rw [RefreshTokenRow.isConsumed, hconsumed, Option.isSome_none]
  · have hother : (some r.refreshToken.id == r.refreshToken.parentId) = false := by
      simpa [hparent] using hfresh
    rw [Rotation.parentIsActive, hother, Bool.false_and, Bool.false_and]

end Steps

section Runs

variable [Locale] {ok : ExchangePool → Move Call → Prop} {pool : ExchangePool} {i : ℕ}
  {t : Thread Call Site SiteOperation Failure Reply} {op : SiteOperation}

/-- A fresh identifier that a row is about to be stored under has not served another row of the
table in the same way. -/
theorem unused_of_pending {ρ : Type} (rows : Site → List ρ) (stored : SiteOperation → Option ρ)
    (uses : ρ → ℕ → Prop) {E : ρ → ρ → Prop} (hfresh : ∀ s : Site, s.Fresh → rows s = [])
    (hmem : ∀ op s u, u ∈ rows (op.perform s) →
      (∃ u₀ ∈ rows s, E u₀ u) ∨ ∃ row, stored op = some row ∧ E row u)
    (hquiet : ∀ op : SiteOperation, op.Quiet → stored op = none)
    {G : Call → ExchangeLog → Site → SiteOperation → Prop}
    {P : Call → ExchangeLog → Except Failure Reply → Prop}
    (hprogram : ∀ c : Call, c.program.Obeys (G c) (P c) [])
    (hkept : ∀ t u n, E t u → uses u n → uses t n)
    (hdrawn : ∀ c log s op row n, G c log s op → stored op = some row → uses row n →
      Generated log ("id-" ++ toString n))
    (h : ExchangeReachable ok pool) (hpending : pool.pending i = some (t, op))
    {row : ρ} (hrow : stored op = some row) {n : ℕ} (huses : uses row n) :
    ∀ u ∈ rows pool.store, ¬uses u n := by
  have hnone : ∀ {op : SiteOperation} {n : ℕ}, op.Quiet →
      ¬∃ row, stored op = some row ∧ uses row n := by
    rintro op n hop ⟨row, hrow, _⟩
    rw [hquiet op hop] at hrow
    cases hrow
  have hdraws : ∀ c log s op, G c log s op →
      Drawn (fun s : Site => s.access.generated) SiteOperation.generates
        (fun op n => ∃ row, stored op = some row ∧ uses row n) log op := by
    rintro c log s op hG m ⟨row, hrow, hm⟩
    obtain ⟨d, earlier, ⟨new, hlog, hnew⟩, hgenerates, hstamp⟩ :=
      (hdrawn c log s op row m hG hrow hm).event rfl
    exact ⟨d, earlier, ⟨new, hlog, fun e he _ => hnone (hnew e he)⟩, hgenerates, hstamp⟩
  intro u hu hun
  have hcause := h.cause (P := fun s => ∃ t ∈ rows s, uses t n)
    (fun s hs => by simp [hfresh s hs]) ⟨u, hu, hun⟩
  obtain ⟨v, hv, e, he, hbefore, u', hu', hun'⟩ := hcause
  rcases hmem _ _ u' hu' with ⟨u₀, hu₀, hE⟩ | ⟨row', hrow', hE⟩
  · exact hbefore ⟨u₀, hu₀, hkept u₀ u' n hE hun'⟩
  · exact h.unused generated_evolution generated_lt_perform (fun op m hop => hnone hop.quiet)
      hprogram hdraws hpending ⟨row, hrow, huses⟩ v hv e he ⟨row', hrow', hkept row' u' n hE hun'⟩

/-- No token has the family that a token which starts one is about to be stored under. -/
theorem new_family_of_pending (h : ExchangeReachable ok pool) {row : RefreshTokenRow}
    (hpending : pool.pending i = some (t, .insertRefreshToken row))
    (hlines : pool.store.FamiliesAreLines) :
    ∀ u ∈ pool.store.refreshTokens, u.familyId ≠ row.familyId := by
  intro u hu hfamily
  obtain ⟨_, hstarts⟩ := h.pending_obeys program_contract hpending
  obtain ⟨root, hroot, hrootless⟩ :=
    (hlines row.familyId).exists_root (r := u) (by simpa using ⟨hu, hfamily⟩)
  obtain ⟨hroot, hrootFamily⟩ := List.mem_filter.mp hroot
  obtain ⟨s, earlier, _, hnext⟩ := hstarts.familyId
  have hunused := unused_of_pending Site.refreshTokens SiteOperation.storedRefreshToken
    (fun u n => u.parentId = none ∧ u.familyId = "id-" ++ toString n)
    (fun s hs => hs.refreshTokens) (fun _ _ _ => mem_refreshTokens_perform)
    (fun _ => SiteOperation.Quiet.stores_none) program_contract (fun t u n hpersists hu => ?_)
    (fun c log s op row n hG hrow hn => ?_) h hpending rfl ⟨hstarts.parentId, hnext⟩
  · have hsame : root.familyId = row.familyId := by simpa using hrootFamily
    exact hunused root hroot ⟨hrootless, hsame.trans hnext⟩
  · rw [← hpersists.parentId, ← hpersists.familyId]
    exact hu
  · cases op with
    | insertRefreshToken input =>
      obtain rfl : input = row := Option.some.inj hrow
      rw [← hn.2]
      exact hG.familyId
    | rotateRefreshToken r =>
      obtain rfl : r.refreshToken = row := Option.some.inj hrow
      obtain ⟨parent, hsucceeds⟩ := hG
      have hsome := hsucceeds.parentId
      rw [hn.1] at hsome
      cases hsome
    | _ => cases hrow

/-- The parent of a rotation that finds it active is the token that the call had read. -/
theorem succeeds_active_parent (h : ExchangeReachable ok pool) {r : Rotation}
    (hpending : pool.pending i = some (t, .rotateRefreshToken r)) {p : RefreshTokenRow}
    (hp : p ∈ pool.store.refreshTokens) (hparent : r.refreshToken.parentId = some p.id) :
    r.refreshToken.familyId = p.familyId ∧
      r.refreshToken.grant.credentialId = p.grant.credentialId := by
  obtain ⟨ht, parent, hsucceeds⟩ := h.pending_obeys program_contract hpending
  obtain ⟨d, hd, hread⟩ := hsucceeds.read
  have hpersists := (h.evolves_before persists_evolution ht hd).refreshTokens
  have hid : p.id = parent.id := Option.some.inj (hparent.symm.trans hsucceeds.parentId)
  have hlater : parent.Persists p := hpersists.of_mem_of_key_eq (fun _ _ htu => htu.id)
    (valid_of_reachable h).refreshIds hread hp hid
  exact ⟨by rw [hsucceeds.familyId, hlater.familyId],
    by rw [hsucceeds.credentialId, hlater.grant]⟩

theorem lines_of_reachable (h : ExchangeReachable ok pool) : pool.store.FamiliesAreLines := by
  refine h.keeps (I := Site.FamiliesAreLines) (fun s hs => ?_)
    fun pool i t op hpool _ hpending ih => ?_
  · rw [Site.FamiliesAreLines, hs.refreshTokens]
    exact lineages_nil
  · rw [apply_eq]
    cases hstored : op.storedRefreshToken with
    | none => exact lines_perform_of_none ih hstored
    | some row =>
      have hfresh := fresh_of_pending hpool hpending hstored
      cases op with
      | insertRefreshToken input =>
        obtain rfl : input = row := Option.some.inj hstored
        obtain ⟨_, hstarts⟩ := hpool.pending_obeys program_contract hpending
        exact lines_insert ih hstarts.parentId (new_family_of_pending hpool hpending ih)
      | rotateRefreshToken r =>
        obtain rfl : r.refreshToken = row := Option.some.inj hstored
        rcases rotateRefreshToken_cases hfresh with ⟨hany, _, heq⟩ | ⟨e, he⟩ | ⟨_, heq⟩
        · obtain ⟨p, hp, hparent, hconsumed, _, hactive⟩ := exists_active_parent hany
          obtain ⟨hfamily, _⟩ := succeeds_active_parent hpool hpending hp hparent
          rw [SiteOperation.perform, Batch.settle_of_ok heq]
          exact lines_rotated ih hp hconsumed hactive hparent hfamily (hfresh p hp).symm
        · rw [SiteOperation.perform, Batch.settle_of_error he]
          exact ih
        · rw [SiteOperation.perform, Batch.settle_of_ok heq]
          exact ih
      | _ => cases hstored

/-- Whatever calls interleave, a family begins with one token, each later token is the successor of
the one before, which is consumed, and no token has two successors. -/
theorem families_are_lines (h : ExchangeReachable ok pool) :
    (∀ id first, (pool.store.family id).head? = some first → first.parentId = none) ∧
    (∀ id, (pool.store.family id).IsChain fun t u =>
      u.parentId = some t.id ∧ t.consumedAt.isSome = true) ∧
    (∀ id, ∀ t ∈ pool.store.family id, ∀ u ∈ pool.store.family id,
      t.consumedAt = none → u.consumedAt = none → t = u) ∧
    ∀ t ∈ pool.store.refreshTokens, ∀ u ∈ pool.store.refreshTokens, ∀ parent,
      t.parentId = some parent → u.parentId = some parent → t = u := by
  have hlines := lines_of_reachable h
  refine ⟨fun id => (hlines id).root, fun id => (hlines id).chain,
    fun id t ht u hu htnone hunone => ?_,
    fun t ht u hu parent => eq_of_some_key_eq (valid_of_reachable h).parents ht hu⟩
  apply (hlines id).eq_of_not_spent ht hu
  · rw [RefreshTokenRow.isConsumed, htnone, Option.isSome_none]
  · rw [RefreshTokenRow.isConsumed, hunone, Option.isSome_none]

end Runs

namespace Sample

def exchangeAndRefresh : List (Move Call) :=
  Move.alone 0 (.exchangeToken exchange credentials "iss") 19 ++
    Move.alone 1 (.refreshToken ⟨refreshTokenGrantType, "fatr_id-3", none⟩ credentials "iss") 18

set_option maxRecDepth 10000 in
theorem families_are_lines_refreshed : ∃ pool : ExchangePool,
    (pool.store.family "id-2").length = 2 ∧ (pool.store.family "id-2").IsChain fun t u =>
      u.parentId = some t.id ∧ t.consumedAt.isSome = true := by
  have hrun : (run exchangeAndRefresh).any
      (fun pool => (pool.store.family "id-2").length == 2) = true := by
    decide +kernel
  obtain ⟨pool, hpool, hcheck⟩ := reachable_of_run hrun
  exact ⟨pool, by simpa using hcheck, (families_are_lines hpool).2.1 "id-2"⟩

end Sample

end FlareAuth.TokenExchange
