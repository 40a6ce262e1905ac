import FlareAuth.TokenRefresh
import FlareAuth.TokenRotation

/-!
# The scopes of refreshed tokens

A refresh that gets no scope parameter keeps to the scopes of the token it is presented with. With
one it issues whatever the Application holds of it, so a family stays within its first grant as
long as no refresh asks for a scope beyond those of its token which the Application holds.
-/

namespace FlareAuth.TokenExchange

open Concurrent

/-- The scope parameter, if there is one, asks for no scope beyond those of the presented token
which the stores that the refresh has found grant to its client. -/
def TokenRefreshRequest.KeepsWithin (input : TokenRefreshRequest) (log : ExchangeLog) : Prop :=
  ∀ text, input.scope = some text → ∀ d ∈ log, ∀ parent,
    d.before.findRefreshTokenByHash (sha256 input.refreshToken) = some parent →
    ∀ w ∈ Text.split text, Grants log parent.grant.clientId parent.grant.audience w →
      w ∈ parent.grant.scopes

/-- Every refresh that is about to rotate keeps within the token it was presented with. -/
def Narrowing (pool : ExchangePool) : Move Call → Prop
  | .start _ => True
  | .resume i => ∀ t r input client issuer, pool.pending i = some (t, .rotateRefreshToken r) →
      t.call = .refreshToken input client issuer → input.KeepsWithin t.log

structure Narrowed (call : Call) (log : ExchangeLog) (r : Rotation) (parent : RefreshTokenRow) :
    Prop where
  presented : ∃ input client issuer, call = .refreshToken input client issuer ∧
    ∃ d ∈ log, d.before.findRefreshTokenByHash (sha256 input.refreshToken) = some parent
  parentId : r.refreshToken.parentId = some parent.id
  familyId : r.refreshToken.familyId = parent.familyId
  refreshToken : r.refreshToken.grant.scopes ⊆ parent.grant.scopes
  accessToken : r.accessToken.grant.scopes ⊆ parent.grant.scopes
  signed : ∃ i : AccessTokenInput, r.accessToken.tokenHash = sha256 i.payload ∧
    i.scopes ⊆ parent.grant.scopes

theorem Narrowed.mono {call : Call} {log log' : ExchangeLog} {r : Rotation}
    {parent : RefreshTokenRow} (h : Narrowed call log r parent) (hlog : log ⊆ log') :
    Narrowed call log' r parent := by
  obtain ⟨input, client, issuer, hcall, d, hd, hfound⟩ := h.presented
  exact ⟨⟨input, client, issuer, hcall, d, hlog hd, hfound⟩, h.parentId, h.familyId,
    h.refreshToken, h.accessToken, h.signed⟩

/-- The scopes of a token lie within those of the first token of its family. -/
def Site.WithinFirst (s : Site) (u : RefreshTokenRow) : Prop :=
  ∃ first ∈ s.refreshTokens, first.familyId = u.familyId ∧ first.parentId = none ∧
    u.grant.scopes ⊆ first.grant.scopes

theorem Site.WithinFirst.persists {s s' : Site} {u v : RefreshTokenRow} (h : s.WithinFirst u)
    (hs : s.Persists s') (hfamily : v.familyId = u.familyId)
    (hscopes : v.grant.scopes ⊆ u.grant.scopes) : s'.WithinFirst v := by
  obtain ⟨first, hfirst, hsame, hparent, hwithin⟩ := h
  obtain ⟨first', hfirst', hpersists⟩ := hs.refreshTokens.exists_of_mem hfirst
  refine ⟨first', hfirst', ?_, ?_, ?_⟩
  · rw [hpersists.familyId, hsame, hfamily]
  · rw [hpersists.parentId, hparent]
  · rw [hpersists.grant]
    exact fun w hw => hwithin (hscopes hw)

section Runs

variable [Locale] {ok : ExchangePool → Move Call → Prop} {pool : ExchangePool} {i : ℕ}
  {t : Thread Call Site SiteOperation Failure Reply} {op : SiteOperation}

/-- The refresh token that an operation is about to store, and what stands behind it. -/
theorem stored_cases (h : ExchangeReachable ok pool) (hpending : pool.pending i = some (t, op))
    {row : RefreshTokenRow} (hrow : op.storedRefreshToken = some row) :
    Originates t.log row ∨ ∃ r input client issuer parent, op = .rotateRefreshToken r ∧
      r.refreshToken = row ∧ t.call = .refreshToken input client issuer ∧
      Renews t.log input client parent r := by
  obtain ⟨_, hrenewing⟩ := h.pending_obeys program_renewing hpending
  cases op with
  | insertRefreshToken input =>
    obtain rfl : input = row := Option.some.inj hrow
    exact .inl hrenewing
  | rotateRefreshToken r =>
    obtain ⟨input, client, issuer, parent, hcall, hrenews⟩ := hrenewing
    exact .inr ⟨r, input, client, issuer, parent, rfl, Option.some.inj hrow, hcall, hrenews⟩
  | _ => cases hrow

/-- The stored scopes are words, whatever the requests were. -/
theorem words_of_reachable (h : ExchangeReachable ok pool) :
    ∀ u ∈ pool.store.refreshTokens, ∀ w ∈ u.grant.scopes, Text.IsWord w := by
  refine h.keeps (I := fun s => ∀ u ∈ s.refreshTokens, ∀ w ∈ u.grant.scopes, Text.IsWord w)
    (fun s hs => by simp [hs.refreshTokens]) fun pool i t op hpool _ hpending ih u hu w hw => ?_
  rcases mem_refreshTokens_perform hu with ⟨u₀, hu₀, hpersists⟩ | ⟨row, hrow, hpersists⟩
  · rw [hpersists.grant] at hw
    exact ih u₀ hu₀ w hw
  · rw [hpersists.grant] at hw
    rcases stored_cases hpool hpending hrow with hfirst | ⟨r, _, _, _, _, _, rfl, _, hrenews⟩
    · exact hfirst.words w hw
    · exact Text.isWord_of_mem_split (hrenews.requested w hw)

/-- A token that a call has found is still there, with the grant it had. -/
theorem still_stored (h : ExchangeReachable ok pool) (ht : t ∈ pool.threads)
    {d : Event Site SiteOperation} (hd : d ∈ t.log) {tokenHash : Digest String}
    {parent : RefreshTokenRow} (hfound : d.before.findRefreshTokenByHash tokenHash = some parent) :
    ∃ u ∈ pool.store.refreshTokens, parent.Persists u := by
  have hpersists := h.evolves_before persists_evolution ht hd
  exact hpersists.refreshTokens.exists_of_mem (List.mem_of_find?_eq_some hfound)

/-- A refresh that keeps within its token rotates it into a token that does. -/
theorem narrowed_of_pending (h : ExchangeReachable ok pool) (hok : Narrowing pool (.resume i))
    {r : Rotation} (hpending : pool.pending i = some (t, .rotateRefreshToken r)) :
    ∃ parent, Narrowed t.call t.log r parent := by
  obtain ⟨ht, input, client, issuer, parent, hcall, hrenews⟩ :=
    h.pending_obeys program_renewing hpending
  obtain ⟨d, hd, hfound⟩ := hrenews.presented
  obtain ⟨u, hu, hpersists⟩ := still_stored h ht hd hfound
  have hwords : ∀ w ∈ parent.grant.scopes, Text.IsWord w := by
    rw [← hpersists.grant]
    exact words_of_reachable h u hu
  have hwithin : r.refreshToken.grant.scopes ⊆ parent.grant.scopes := by
    intro w hw
    have hrequested := hrenews.requested w hw
    unfold TokenRefreshRequest.requested at hrequested
    cases hscope : input.scope with
    | none =>
      rw [hscope, Option.getD_none, Text.split_join hwords] at hrequested
      exact hrequested
    | some text =>
      rw [hscope, Option.getD_some] at hrequested
      exact hok t r input client issuer hpending hcall text hscope d hd parent hfound w hrequested
        (hrenews.granted w hw)
  obtain ⟨signed, hsigned, _, _, hscopes⟩ := hrenews.payload
  exact ⟨parent, ⟨input, client, issuer, hcall, d, hd, hfound⟩, hrenews.parentId,
    hrenews.familyId, hwithin, by rwa [hrenews.accessToken], signed, hsigned, by rwa [hscopes]⟩

theorem withinFirst_of_reachable (h : ExchangeReachable Narrowing pool) :
    ∀ u ∈ pool.store.refreshTokens, pool.store.WithinFirst u := by
  refine h.keeps (I := fun s => ∀ u ∈ s.refreshTokens, s.WithinFirst u)
    (fun s hs => by simp [hs.refreshTokens]) fun pool i t op hpool hok hpending ih u hu => ?_
  have hstep : pool.store.Persists (op.perform pool.store) :=
    (precedes_perform op pool.store).persists
  rcases mem_refreshTokens_perform hu with ⟨u₀, hu₀, hpersists⟩ | ⟨row, hrow, hpersists⟩
  · refine (ih u₀ hu₀).persists hstep hpersists.familyId ?_
    rw [hpersists.grant]
    exact fun w hw => hw
  rcases stored_cases hpool hpending hrow with hfirst | ⟨r, _, _, _, _, rfl, rfl, _, _⟩
  · refine ⟨u, hu, rfl, ?_, fun w hw => hw⟩
    rw [hpersists.parentId, hfirst.parentId]
  · obtain ⟨parent, hnarrowed⟩ := narrowed_of_pending hpool hok hpending
    obtain ⟨_, _, _, _, d, hd, hfound⟩ := hnarrowed.presented
    obtain ⟨ht, _⟩ := hpool.pending_obeys program_renewing hpending
    obtain ⟨parent', hparent', hsame⟩ := still_stored hpool ht hd hfound
    refine (ih parent' hparent').persists hstep ?_ ?_
    · rw [hpersists.familyId, hnarrowed.familyId, hsame.familyId]
    · rw [hpersists.grant, hsame.grant]
      exact hnarrowed.refreshToken

/-- Where no refresh asks for a granted scope beyond those of its token, each rotation stays within
the token it was presented with, and every token within the first one of its family. -/
theorem refresh_never_widens (h : ExchangeReachable Narrowing pool) :
    (∀ t ∈ pool.threads, ∀ d ∈ t.log, ∀ r, d.operation = .rotateRefreshToken r →
      ∃ parent, Narrowed t.call t.log r parent) ∧
    ∀ u ∈ pool.store.refreshTokens, ∃ first ∈ pool.store.refreshTokens,
      first.familyId = u.familyId ∧ first.parentId = none ∧
      u.grant.scopes ⊆ first.grant.scopes := by
  refine ⟨fun t ht d hd r hr => ?_, withinFirst_of_reachable h⟩
  obtain ⟨later, earlier, hlog⟩ := List.append_of_mem hd
  obtain ⟨pool₀, i, t₀, after, hpool₀, hok, hi, hcall, rfl, hrest, _, _⟩ := h.of_log ht hlog
  rw [hr] at hrest
  obtain ⟨parent, hnarrowed⟩ :=
    narrowed_of_pending hpool₀ hok (Pool.pending_of_step hi hrest)
  refine ⟨parent, (hcall ▸ hnarrowed).mono ?_⟩
  rw [hlog]
  exact fun e he => List.mem_append_right _ (List.mem_cons_of_mem _ he)

end Runs

section Samples

/-- Each word of the scope parameter is among the scopes of the presented token. -/
def keepsWithinCheck (input : TokenRefreshRequest) (log : ExchangeLog) : Bool :=
  log.all fun d => (d.before.findRefreshTokenByHash (sha256 input.refreshToken)).all fun parent =>
    (Text.split (input.scope.getD "")).all parent.grant.scopes.contains

def narrowingCheck (pool : ExchangePool) : Move Call → Bool
  | .start _ => true
  | .resume i => (pool.pending i).all fun (t, _) =>
      match t.call with
      | .refreshToken input _ _ => keepsWithinCheck input t.log
      | _ => true

theorem narrowing_of_check {pool : ExchangePool} {m : Move Call}
    (h : narrowingCheck pool m = true) : Narrowing pool m := by
  cases m with
  | start c => exact trivial
  | resume i =>
    intro t r input client issuer hpending hcall text htext d hd parent hparent w hw _
    rw [narrowingCheck, hpending] at h
    simp only [Option.all_some, hcall] at h
    have hd' := List.all_eq_true.mp h d hd
    rw [hparent, Option.all_some, htext, Option.getD_some] at hd'
    exact List.contains_iff_mem.mp (List.all_eq_true.mp hd' w hw)

/-- The exchange of a token for some scopes, then a refresh with a scope parameter. -/
def exchangeThenRefresh (first second : String) : List (Move Call) :=
  Move.alone 0 (.exchangeToken { Sample.exchange with scope := some first }
      Sample.credentials "iss") 19 ++
    Move.alone 1 (.refreshToken ⟨refreshTokenGrantType, "fatr_id-3", some second⟩
      Sample.credentials "iss") 18

set_option maxRecDepth 10000 in
theorem refresh_never_widens_sample : ∃ pool : ExchangePool, pool.store.refreshTokens.length = 2 ∧
    ∀ u ∈ pool.store.refreshTokens, ∃ first ∈ pool.store.refreshTokens,
      first.familyId = u.familyId ∧ first.parentId = none ∧
      u.grant.scopes ⊆ first.grant.scopes := by
  have hrun : ((Pool.initial Sample.site).run Call.program narrowingCheck
      (exchangeThenRefresh "read offline_access" "read")).any
      (fun pool => pool.store.refreshTokens.length == 2) = true := by
    decide +kernel
  obtain ⟨pool, hpool, hcheck⟩ := (Option.any_eq_true _ _).mp hrun
  have hreach : ExchangeReachable Narrowing pool := Reachable.of_run
    (fun _ _ => narrowing_of_check) (.initial Sample.site_fresh) hpool
  exact ⟨pool, by simpa using hcheck, (refresh_never_widens hreach).2⟩

set_option maxRecDepth 10000 in
/-- A family that was granted `offline_access` alone is refreshed with `read` as well. -/
theorem refresh_widens : ∃ pool : ExchangePool, ExchangeReachable (fun _ _ => True) pool ∧
    ∃ u ∈ pool.store.refreshTokens, ∃ parent ∈ pool.store.refreshTokens,
      u.parentId = some parent.id ∧ ¬u.grant.scopes ⊆ parent.grant.scopes ∧
      ∃ a ∈ pool.store.accessTokens, a.grant = u.grant := by
  have hrun : (Sample.run (exchangeThenRefresh "offline_access" "read offline_access")).any
      (fun pool => pool.store.refreshTokens.any fun u => pool.store.refreshTokens.any fun parent =>
        decide (u.parentId = some parent.id ∧ ¬u.grant.scopes ⊆ parent.grant.scopes) &&
          pool.store.accessTokens.any fun a => decide (a.grant = u.grant)) = true := by
    decide +kernel
  obtain ⟨pool, hpool, hcheck⟩ := Sample.reachable_of_run hrun
  simp only [List.any_eq_true, Bool.and_eq_true, decide_eq_true_eq] at hcheck
  obtain ⟨u, hu, parent, hparent, ⟨hchild, hwider⟩, a, ha, hsame⟩ := hcheck
  exact ⟨pool, hpool, u, hu, parent, hparent, hchild, hwider, a, ha, hsame⟩

end Samples

end FlareAuth.TokenExchange
