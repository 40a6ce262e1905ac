import FlareAuth.Concurrent.Refusals
import FlareAuth.TokenMinting

/-!
# How a refresh ends

A refresh that returns tokens has rotated the presented one, which was active at that moment. One
that detects reuse, at its lookup or because its rotation came too late, has revoked the family for
good. So at most one refresh of a token returns, in every interleaving.
-/

namespace FlareAuth.TokenExchange

open Concurrent Procedure Access Relational FlareAuth.TokenExchange.Repository

def reuseDetected : Failure := oauthError "invalid_grant" "Refresh token reuse was detected."

section Refusals

variable {α : Type}

def NotReuse (e : Failure) : Prop := e ≠ reuseDetected

@[simp] theorem notReuse_oauthError {error description : String} {status : ℕ} :
    NotReuse (oauthError error description status) ↔ ¬(status = 400 ∧ error = "invalid_grant" ∧
      description = "Refresh token reuse was detected.") := by
  simp [NotReuse, oauthError, reuseDetected]

theorem notReuse_error (message : String) : NotReuse (.error message) := nofun

/-- A part of a refresh that fails with other errors than that of a reuse. -/
abbrev Exchange.Unrelated (p : Exchange α) : Prop := p.Refuses NotReuse

theorem unrelated_onAccess {p : Access α} (h : p.Refuses NotReuse) : (onAccess p).Unrelated :=
  refuses_lift h

@[simp] theorem unrelated_ask (answer : Site → α) : (ask answer).Unrelated := refuses_query _ _

@[simp] theorem unrelated_look (answer : Directory → α) : (onAccess (look answer)).Unrelated :=
  unrelated_onAccess (refuses_query _ _)

@[simp] theorem unrelated_clock : (onAccess clock).Unrelated :=
  unrelated_onAccess (refuses_query _ _)

@[simp] theorem unrelated_generateId : (onAccess generateId).Unrelated :=
  unrelated_onAccess (refuses_query _ _)

@[simp] theorem unrelated_authenticateApplicationClient (c : ClientCredentials) :
    (authenticateApplicationClient c).Unrelated := by
  simp [authenticateApplicationClient, invalidClient]

theorem unrelated_findPresentedToken (input : TokenRefreshRequest) (client : ClientCredentials) :
    (findPresentedToken input client).Unrelated := by
  simp [findPresentedToken]

theorem unrelated_eligibleCredential (row : RefreshTokenRow) (clientId : String) :
    (eligibleCredential row clientId).Unrelated := by
  simp [eligibleCredential, isEligibleAudience]

theorem unrelated_normalizeScopes {scope : Option String} {allowed : List String} {e : Failure}
    (h : normalizeScopes scope allowed = .error e) : NotReuse e := by
  unfold normalizeScopes at h
  dsimp only at h
  split at h
  · obtain rfl := Except.error.inj h
    simp
  · cases h

theorem unrelated_resolveApplicationTokenScopes (application : Application) (audience : String)
    (scope : Option String) :
    (resolveApplicationTokenScopes application audience scope).Unrelated := by
  have heffective : ∀ applicationId organizationId resource now,
      (onAccess (applicationEffectiveResourceScopes applicationId organizationId resource
        now)).Unrelated := by
    intro applicationId organizationId resource now
    refine unrelated_onAccess ?_
    unfold applicationEffectiveResourceScopes
    split
    · exact fun _ => trivial
    · exact trivial
  simp only [resolveApplicationTokenScopes, resolveApplicationTokenScopesForResource, refuses_bind,
    refuses_orThrow, refuses_ofExcept, unrelated_look, unrelated_clock, heffective, true_and]
  refine fun found _ => ⟨fun _ => ?_, fun resource _ => ⟨fun e => unrelated_normalizeScopes, ?_⟩⟩
  · simp
  · exact fun _ _ _ _ _ _ => trivial

theorem unrelated_prepareRotation (row : RefreshTokenRow) (clientId issuer : String)
    (scopes : List String) (now : ℕ) :
    (prepareRotation row clientId issuer scopes now).Unrelated := by
  simp [prepareRotation, prepareRefreshToken]

theorem unrelated_rotateRefreshToken (r : Rotation) :
    Batch.Refuses NotReuse (rotateRefreshToken r) := by
  have hrefresh : Batch.Refuses NotReuse (insertRefreshToken r.refreshToken) := by
    intro s e he
    unfold insertRefreshToken at he
    split at he
    · obtain rfl := Except.error.inj he
      exact notReuse_error _
    · split at he
      · obtain rfl := Except.error.inj he
        exact notReuse_error _
      · cases he
  have haccess : Batch.Refuses NotReuse (insertAccessToken r.accessToken) := by
    intro s e he
    unfold insertAccessToken at he
    split at he
    · obtain rfl := Except.error.inj he
      exact notReuse_error _
    · split at he
      · obtain rfl := Except.error.inj he
        exact notReuse_error _
      · cases he
  have hselected : ∀ {insert : SiteBatch Unit}, Batch.Refuses NotReuse insert →
      ∀ selected, Batch.Refuses NotReuse (insertSelected insert selected) := by
    intro insert hinsert selected
    refine (Batch.refuses_read _).bind fun found => ?_
    split
    · exact hinsert.bind fun _ => Batch.refuses_pure _
    · exact Batch.refuses_pure _
  have hparent : Batch.Refuses NotReuse (consumeParent r) :=
    (Batch.refuses_read _).bind fun _ => (Batch.refuses_modify _).bind fun _ => Batch.refuses_pure _
  refine (hselected hrefresh _).bind fun _ => hparent.bind fun _ => ?_
  exact (hselected haccess _).bind fun _ => Batch.refuses_pure _

end Refusals

section Contract

structure Answers (response : TokenExchangeResponse) (r : Rotation) : Prop where
  accessToken : r.accessToken.tokenHash = sha256 response.accessToken
  refreshToken : ∃ token, response.refreshToken = some token ∧
    r.refreshToken.tokenHash = sha256 token

def Presents (input : TokenRefreshRequest) (client : ClientCredentials) (log : ExchangeLog)
    (row : RefreshTokenRow) : Prop :=
  row.grant.clientId = client.clientId ∧
    ∃ d ∈ log, d.before.findRefreshTokenByHash (sha256 input.refreshToken) = some row

/-- What a refresh has done by the time it ends. -/
def Settles (input : TokenRefreshRequest) (client : ClientCredentials) (log : ExchangeLog) :
    Except Failure TokenExchangeResponse → Prop
  | .ok response => ∃ row r, Presents input client log row ∧ Answers response r ∧
      r.refreshToken.parentId = some row.id ∧ ∃ d ∈ log, d.operation = .rotateRefreshToken r ∧
        (rotateRefreshToken r).outcome d.before = .ok true
  | .error e => e = reuseDetected → ∃ row earlier later d now, log = later ++ d :: earlier ∧
      Presents input client earlier row ∧ d.operation = .revokeRefreshTokenFamily row.familyId now

variable {input : TokenRefreshRequest} {client : ClientCredentials} {log new : ExchangeLog}
  {row : RefreshTokenRow}

theorem Presents.append (h : Presents input client log row) :
    Presents input client (new ++ log) row := by
  obtain ⟨hclient, d, hd, hfound⟩ := h
  exact ⟨hclient, d, List.mem_append_right new hd, hfound⟩

/-- The end of a refresh that detects reuse. -/
theorem settles_revoked (h : Presents input client log row) (now : ℕ)
    {f : Unit → Exchange TokenExchangeResponse} (hf : f () = fail reuseDetected) :
    Obeys (fun _ _ _ => True) (Settles input client)
      (revokeRefreshTokenFamily row.familyId now >>= f) log := by
  intro s
  refine ⟨trivial, ?_⟩
  change Obeys _ _ (f ()) _
  rw [hf]
  intro _
  exact ⟨row, log, [], _, now, rfl, h, rfl⟩

theorem settles_refreshToken (input : TokenRefreshRequest) (client : ClientCredentials)
    (issuer : String) :
    Obeys (fun _ _ _ => True) (Settles input client) (refreshToken input client issuer) [] := by
  have hother : ∀ log e, NotReuse e → Settles input client log (.error e) :=
    fun _ _ he hsame => absurd hsame he
  refine (unrelated_findPresentedToken input client).obeys_bind
    (leaves_findPresentedToken input client)
    (fun log₀ presented hpresented => ?_) hother
  obtain ⟨oauthClient, application, row, now⟩ := presented
  obtain ⟨hclient, hmine, _, hpresented⟩ := hpresented
  have hpresents : Presents input client (log₀ ++ []) row := by
    rw [List.append_nil]
    exact ⟨hmine, hpresented⟩
  dsimp only
  split
  · exact settles_revoked hpresents now rfl
  refine Refuses.obeys_bind (E := NotReuse) ?_ (leaves_true _) (fun log₁ _ _ => ?_) hother
  · simp
  refine (unrelated_eligibleCredential row _).obeys_bind (leaves_true _)
    (fun log₂ eligible _ => ?_) hother
  split
  · intro s
    refine ⟨trivial, hother _ _ ?_⟩
    simp
  refine (unrelated_resolveApplicationTokenScopes _ _ _).obeys_bind (leaves_true _)
    (fun log₃ scopes _ => ?_) hother
  refine (unrelated_prepareRotation _ _ _ _ _).obeys_bind
    ((leaves_mintedRotation _ _ _ _ _).and (leaves_prepareRotation _ _ _ _ _
      (hmine.trans hclient.symm)))
    (fun log₄ prepared hprepared => ?_) hother
  obtain ⟨token, accessToken, r⟩ := prepared
  obtain ⟨⟨htoken, haccess, _⟩, hparent, _⟩ := hprepared
  intro s
  refine ⟨trivial, obeys_ofExcept_bind (fun e hrotated => ?_) fun stored hrotated => ?_⟩
  · refine hother _ e ?_
    unfold Batch.outcome at hrotated
    split at hrotated
    · cases hrotated
    · rename_i he
      obtain rfl := Except.error.inj hrotated
      exact unrelated_rotateRefreshToken r s _ he
  · have hlater : Presents input client
        ([⟨.rotateRefreshToken r, s⟩] ++
          (log₄ ++ (log₃ ++ (log₂ ++ (log₁ ++ (log₀ ++ [])))))) row :=
      hpresents.append.append.append.append.append
    cases stored with
    | true =>
      exact ⟨row, r, hlater, ⟨haccess, token, rfl, htoken⟩, hparent, _, List.mem_cons_self, rfl,
        hrotated⟩
    | false => exact settles_revoked hlater now rfl

variable [Locale]

/-- What a call has done by the time it ends, if it is a refresh. -/
def Settled (call : Call) (log : ExchangeLog) (result : Except Failure Reply) : Prop :=
  ∀ input client issuer, call = .refreshToken input client issuer →
    (∃ response, result = .ok (.token response) ∧ Settles input client log (.ok response)) ∨
    ∃ e, result = .error e ∧ Settles input client log (.error e)

theorem program_settled (call : Call) :
    call.program.Obeys (fun _ _ _ => True) (Settled call) [] := by
  by_cases hcall : ∃ input client issuer, call = .refreshToken input client issuer
  · obtain ⟨input, client, issuer, rfl⟩ := hcall
    refine (settles_refreshToken input client issuer).bind (fun log response _ h => ?_)
      fun log e h => ?_
    · rintro _ _ _ ⟨⟩
      exact .inl ⟨response, rfl, h⟩
    · rintro _ _ _ ⟨⟩
      exact .inr ⟨e, rfl, h⟩
  · have hvacuous : ∀ log result, Settled call log result :=
      fun log result input client issuer heq => absurd ⟨input, client, issuer, heq⟩ hcall
    exact (only_true call.program).obeys (fun _ _ _ _ => trivial) (fun _ _ _ _ => hvacuous _ _)
      fun _ _ _ => hvacuous _ _

end Contract

section Runs

variable [Locale] {ok : ExchangePool → Move Call → Prop} {pool : ExchangePool} {i j : ℕ}
  {t u : Thread Call Site SiteOperation Failure Reply} {op : SiteOperation} {r : Rotation}
  {familyId : Id}

/-- What a rotation that answered yes has found and done. -/
theorem rotated_of_event (h : ExchangeReachable ok pool) (ht : t ∈ pool.threads)
    {d : Event Site SiteOperation} (hd : d ∈ t.log) (hop : d.operation = .rotateRefreshToken r)
    (houtcome : (rotateRefreshToken r).outcome d.before = .ok true) :
    (∃ p ∈ d.before.refreshTokens, r.refreshToken.parentId = some p.id ∧ p.consumedAt = none ∧
      p.revokedAt = none) ∧ apply d.operation d.before = d.before.rotated r := by
  obtain ⟨later, earlier, hlog⟩ := List.append_of_mem hd
  obtain ⟨pool₀, i, t₀, after, hpool₀, _, hi, _, _, hrest, hstore, _⟩ := h.of_log ht hlog
  have hpending := Pool.pending_of_step hi hrest
  rw [hop] at hpending
  obtain ⟨hanswer, heffect⟩ := rotation_takes_effect_iff hpool₀ hpending
  rw [hstore] at hanswer heffect
  have hactive : d.before.refreshTokens.any r.parentIsActive = true :=
    Except.ok.inj (hanswer.symm.trans houtcome)
  obtain ⟨p, hp, hparent, hconsumed, hrevoked, _⟩ := exists_active_parent hactive
  refine ⟨⟨p, hp, hparent, hconsumed, hrevoked⟩, ?_⟩
  rw [hop, heffect, if_pos hactive]

def Site.FamilyRevoked (s : Site) (familyId : Id) : Prop :=
  (∃ u ∈ s.refreshTokens, u.familyId = familyId) ∧
    ∀ u ∈ s.refreshTokens, u.familyId = familyId → u.revokedAt.isSome = true

omit [Locale] in
theorem familyRevoked_revoke {s : Site} (now : ℕ)
    (h : ∃ u ∈ s.refreshTokens, u.familyId = familyId) :
    (SiteOperation.perform (.revokeRefreshTokenFamily familyId now) s).FamilyRevoked familyId := by
  have hpersists := (precedes_perform (.revokeRefreshTokenFamily familyId now) s).persists
  obtain ⟨u, hu, hfamily⟩ := h
  obtain ⟨v, hv, huv⟩ := hpersists.refreshTokens.exists_of_mem hu
  refine ⟨⟨v, hv, huv.familyId.trans hfamily⟩, fun w hw hwfamily => ?_⟩
  obtain ⟨w₀, _, rfl⟩ := mem_updateWhere.mp hw
  by_cases hlive : (w₀.familyId == familyId && w₀.revokedAt.isNone) = true
  · rw [if_pos hlive]
    rfl
  · rw [if_neg hlive] at hwfamily ⊢
    simpa [hwfamily, Option.isSome_iff_ne_none] using hlive

/-- A revoked family gets no further token. -/
theorem familyRevoked_step (h : ExchangeReachable ok pool)
    (hpending : pool.pending i = some (t, op))
    (hrevoked : pool.store.FamilyRevoked familyId) :
    (op.perform pool.store).FamilyRevoked familyId := by
  obtain ⟨⟨u, hu, hfamily⟩, hall⟩ := hrevoked
  have hpersists := (precedes_perform op pool.store).persists
  obtain ⟨v, hv, huv⟩ := hpersists.refreshTokens.exists_of_mem hu
  refine ⟨⟨v, hv, huv.familyId.trans hfamily⟩, fun w hw hwfamily => ?_⟩
  rcases mem_refreshTokens_perform hw with ⟨w₀, hw₀, hkept⟩ | ⟨row, hrow, hkept⟩
  · exact hkept.revoked (hall w₀ hw₀ (hkept.familyId.symm.trans hwfamily))
  · have hrowFamily : row.familyId = familyId := hkept.familyId.symm.trans hwfamily
    cases op with
    | insertRefreshToken input =>
      obtain rfl : input = row := Option.some.inj hrow
      exact absurd (hfamily.trans hrowFamily.symm)
        (new_family_of_pending h hpending (lines_of_reachable h) u hu)
    | rotateRefreshToken r =>
      obtain rfl : r.refreshToken = row := Option.some.inj hrow
      have heffect := (rotation_takes_effect_iff h hpending).2
      by_cases hactive : pool.store.refreshTokens.any r.parentIsActive = true
      · obtain ⟨p, hp, hparent, _, hlive, _⟩ := exists_active_parent hactive
        obtain ⟨hsame, _⟩ := succeeds_active_parent h hpending hp hparent
        have hdead := hall p hp (hsame.symm.trans hrowFamily)
        rw [hlive] at hdead
        cases hdead
      · rw [if_neg hactive, apply_eq] at heffect
        rw [heffect] at hw
        exact hall w hw hwfamily
    | _ => cases hrow

/-- Whoever revoked a family that had tokens, it has no other tokens than revoked ones from then
on. -/
theorem familyRevoked_of_event (h : ExchangeReachable ok pool) (ht : t ∈ pool.threads)
    {d : Event Site SiteOperation} (hd : d ∈ t.log) {now : ℕ}
    (hop : d.operation = .revokeRefreshTokenFamily familyId now)
    (hfamily : ∃ u ∈ d.before.refreshTokens, u.familyId = familyId) :
    pool.store.FamilyRevoked familyId := by
  refine h.marked (K := fun e => (∃ now, e.operation = .revokeRefreshTokenFamily familyId now) ∧
      ∃ u ∈ e.before.refreshTokens, u.familyId = familyId)
    (D := fun s => s.FamilyRevoked familyId) (fun pool i t op _ _ _ hK => ?_)
    (fun pool i t op hpool _ hpending => familyRevoked_step hpool hpending) t ht d hd
    ⟨⟨now, hop⟩, hfamily⟩
  obtain ⟨⟨now, rfl⟩, hfamily⟩ := hK
  exact familyRevoked_revoke now hfamily

variable {input : TokenRefreshRequest} {client : ClientCredentials} {issuer : String}

/-- The presented token as it is now. -/
theorem presented_now (h : ExchangeReachable ok pool) (ht : t ∈ pool.threads)
    {row : RefreshTokenRow}
    (hpresents : Presents input client t.log row) :
    ∃ p ∈ pool.store.refreshTokens, row.Persists p ∧ p.tokenHash = sha256 input.refreshToken ∧
      p.grant.clientId = client.clientId := by
  obtain ⟨hclient, d, hd, hfound⟩ := hpresents
  have hpersists := (h.evolves_before persists_evolution ht hd).refreshTokens
  obtain ⟨p, hp, hkept⟩ := hpersists.exists_of_mem (List.mem_of_find?_eq_some hfound)
  have hhash : row.tokenHash = sha256 input.refreshToken := by simpa using List.find?_some hfound
  exact ⟨p, hp, hkept, hkept.tokenHash.trans hhash, by rw [hkept.grant, hclient]⟩

/-- A refresh that returns has rotated the presented token, active at that moment, in one step; one
that detects reuse has left the family of the presented token without a usable one, for good. -/
theorem refresh_settles (h : ExchangeReachable ok pool) (ht : t ∈ pool.threads)
    (hcall : t.call = .refreshToken input client issuer) :
    (∀ reply, t.rest.result = some (.ok reply) → ∃ response r, reply = .token response ∧
      Answers response r ∧ ∃ d ∈ t.log, d.operation = .rotateRefreshToken r ∧
        apply d.operation d.before = d.before.rotated r ∧
        ∃ p ∈ d.before.refreshTokens, p.tokenHash = sha256 input.refreshToken ∧
          p.grant.clientId = client.clientId ∧ r.refreshToken.parentId = some p.id ∧
          p.consumedAt = none ∧ p.revokedAt = none) ∧
    (t.rest.result = some (.error reuseDetected) → ∃ p ∈ pool.store.refreshTokens,
      p.tokenHash = sha256 input.refreshToken ∧ p.grant.clientId = client.clientId ∧
      ∀ u ∈ pool.store.refreshTokens, u.familyId = p.familyId → u.revokedAt.isSome = true) := by
  constructor
  · intro reply hresult
    rcases h.ended program_settled ht hresult input client issuer hcall with
      ⟨response, hreply, hsettles⟩ | ⟨e, he, _⟩
    · obtain rfl := Except.ok.inj hreply
      obtain ⟨row, r, hpresents, hanswers, hparent, d, hd, hop, houtcome⟩ := hsettles
      obtain ⟨⟨p, hp, hparent', hconsumed, hrevoked⟩, heffect⟩ :=
        rotated_of_event h ht hd hop houtcome
      obtain ⟨q, hq, hrow, hhash, hclient⟩ := presented_now h ht hpresents
      have hpersists := (h.evolves_before persists_evolution ht hd).refreshTokens
      have hid : q.id = p.id :=
        hrow.id.trans (Option.some.inj (hparent.symm.trans hparent'))
      have hkept : p.Persists q := hpersists.of_mem_of_key_eq (fun _ _ htu => htu.id)
        (valid_of_reachable h).refreshIds hp hq hid
      refine ⟨response, r, rfl, hanswers, d, hd, hop, heffect, p, hp, ?_, ?_, hparent', hconsumed,
        hrevoked⟩
      · rw [← hkept.tokenHash, hhash]
      · rw [← hkept.grant, hclient]
    · cases he
  · intro hresult
    rcases h.ended program_settled ht hresult input client issuer hcall with
      ⟨response, hreply, _⟩ | ⟨e, he, hsettles⟩
    · cases hreply
    · obtain rfl := Except.error.inj he
      obtain ⟨row, earlier, later, d, now, hlog, ⟨hmine, e, hearlier, hfound⟩, hop⟩ := hsettles rfl
      have hd : d ∈ t.log := hlog ▸ List.mem_append_right later List.mem_cons_self
      have he : e ∈ t.log :=
        hlog ▸ List.mem_append_right later (List.mem_cons_of_mem d hearlier)
      obtain ⟨p, hp, hrow, hhash, hclient⟩ := presented_now h ht ⟨hmine, e, he, hfound⟩
      have hbetween := persists_evolution.trans _ _ _ (persists_evolution.step e.operation e.before)
        (h.evolves_between persists_evolution ht hlog hearlier)
      obtain ⟨q, hq, hkept⟩ :=
        hbetween.refreshTokens.exists_of_mem (List.mem_of_find?_eq_some hfound)
      have hdead := familyRevoked_of_event h ht hd hop ⟨q, hq, hkept.familyId⟩
      refine ⟨p, hp, hhash, hclient, fun u hu hfamily => hdead.2 u hu ?_⟩
      rw [hfamily, hrow.familyId]

/-- A refresh token is good for one refresh, however many requests present it at once. -/
theorem refresh_token_single_use (h : ExchangeReachable ok pool)
    (ht : pool.threads[i]? = some t) (hu : pool.threads[j]? = some u)
    {input' : TokenRefreshRequest} {client' : ClientCredentials} {issuer' : String}
    (htcall : t.call = .refreshToken input client issuer)
    (hucall : u.call = .refreshToken input' client' issuer')
    (hsame : input.refreshToken = input'.refreshToken) {reply reply' : Reply}
    (htresult : t.rest.result = some (.ok reply)) (huresult : u.rest.result = some (.ok reply')) :
    i = j := by
  have hrotated : ∀ {k : ℕ} {v : Thread Call Site SiteOperation Failure Reply}
      {presented : TokenRefreshRequest} {by' : ClientCredentials} {issuer : String} {reply : Reply},
      pool.threads[k]? = some v → v.call = .refreshToken presented by' issuer →
      v.rest.result = some (.ok reply) → ∃ p ∈ pool.store.refreshTokens,
        p.tokenHash = sha256 presented.refreshToken ∧ ∃ e ∈ v.log, ∃ r,
          e.operation = .rotateRefreshToken r ∧ (rotateRefreshToken r).outcome e.before = .ok true ∧
          r.refreshToken.parentId = some p.id := by
    intro k v presented by' issuer reply hv hcall hresult
    have hmem := List.mem_of_getElem? hv
    rcases h.ended program_settled hmem hresult presented by' issuer hcall with
      ⟨response, _, hsettles⟩ | ⟨e, he, _⟩
    · obtain ⟨row, r, hpresents, _, hparent, d, hd, hop, houtcome⟩ := hsettles
      obtain ⟨p, hp, hrow, hhash, _⟩ := presented_now h hmem hpresents
      exact ⟨p, hp, hhash, d, hd, r, hop, houtcome, hparent.trans (congrArg some hrow.id.symm)⟩
    · cases he
  obtain ⟨p, hp, hphash, htevent⟩ := hrotated ht htcall htresult
  obtain ⟨q, hq, hqhash, huevent⟩ := hrotated hu hucall huresult
  obtain rfl : p = q := eq_of_key_eq (valid_of_reachable h).refreshHashes hp hq
    (by rw [hphash, hqhash, hsame])
  refine (h.at_most_one (K := fun e => ∃ r, e.operation = .rotateRefreshToken r ∧
      (rotateRefreshToken r).outcome e.before = .ok true ∧ r.refreshToken.parentId = some p.id)
    (D := fun s => ∃ u ∈ s.refreshTokens, u.id = p.id ∧ u.consumedAt.isSome = true)
    (fun pool i t op hpool _ hpending hK => ?_) (fun pool i t op _ _ _ hD => ?_)).2 i j t u ht hu
    htevent huevent
  · obtain ⟨r, rfl, houtcome, hparent⟩ := hK
    obtain ⟨hanswer, heffect⟩ := rotation_takes_effect_iff hpool hpending
    have hactive : pool.store.refreshTokens.any r.parentIsActive = true :=
      Except.ok.inj (hanswer.symm.trans houtcome)
    obtain ⟨v, hv, hvparent, hvconsumed, _, hvactive⟩ := exists_active_parent hactive
    have hvid : v.id = p.id := Option.some.inj (hvparent.symm.trans hparent)
    constructor
    · rintro ⟨w, hw, hwid, hwconsumed⟩
      obtain rfl := eq_of_key_eq (valid_of_reachable hpool).refreshIds hw hv (hwid.trans hvid.symm)
      rw [hvconsumed] at hwconsumed
      cases hwconsumed
    · rw [heffect, if_pos hactive]
      refine ⟨{ v with consumedAt := some r.now }, ?_, hvid, rfl⟩
      exact mem_updateWhere_of (List.mem_append_left _ hv) hvactive
  · obtain ⟨w, hw, hwid, hwconsumed⟩ := hD
    obtain ⟨w', hw', hkept⟩ :=
      (precedes_perform op pool.store).persists.refreshTokens.exists_of_mem hw
    exact ⟨w', hw', hkept.id.trans hwid, hkept.consumed hwconsumed⟩

end Runs

namespace Sample

def presented : TokenRefreshRequest := ⟨refreshTokenGrantType, "fatr_id-3", none⟩

/-- Two refreshes of one token, the first of which comes to its rotation after the second. -/
def refreshTwice : List (Move Call) :=
  Move.alone 0 (.exchangeToken exchange credentials "iss") 19 ++
    Move.alone 1 (.refreshToken presented credentials "iss") 17 ++
    Move.alone 2 (.refreshToken presented credentials "iss") 18 ++ [.resume 1, .resume 1]

def ended (returns : Bool) (t : Thread Call Site SiteOperation Failure Reply) : Bool :=
  match t.call, t.rest.result with
  | .refreshToken input client issuer, some (.ok _) =>
    returns && input.refreshToken == "fatr_id-3" &&
      client.clientId == "app" && issuer == "iss"
  | .refreshToken input client issuer, some (.error (.oauth 400 "invalid_grant"
      "Refresh token reuse was detected.")) => !returns && input.refreshToken == "fatr_id-3" &&
      client.clientId == "app" && issuer == "iss"
  | _, _ => false

theorem call_of_ended {returns : Bool} {t : Thread Call Site SiteOperation Failure Reply}
    (h : ended returns t = true) : ∃ input client, t.call = .refreshToken input client "iss" ∧
      input.refreshToken = "fatr_id-3" ∧
      if returns then ∃ reply, t.rest.result = some (.ok reply)
      else t.rest.result = some (.error reuseDetected) := by
  unfold ended at h
  split at h
  · rename_i input client issuer reply hcall hresult
    simp only [Bool.and_eq_true, beq_iff_eq] at h
    obtain ⟨⟨⟨rfl, htoken⟩, _⟩, rfl⟩ := h
    exact ⟨input, client, hcall, htoken, reply, hresult⟩
  · rename_i input client issuer hcall hresult
    simp only [Bool.and_eq_true, Bool.not_eq_true', beq_iff_eq] at h
    obtain ⟨⟨⟨rfl, htoken⟩, _⟩, rfl⟩ := h
    exact ⟨input, client, hcall, htoken, hresult⟩
  · cases h

set_option maxRecDepth 10000 in
theorem exists_refreshTwice : ∃ pool : ExchangePool, ExchangeReachable (fun _ _ => True) pool ∧
    (∃ t, pool.threads[1]? = some t ∧ ended false t = true) ∧
    ∃ u, pool.threads[2]? = some u ∧ ended true u = true := by
  have hrun : (run refreshTwice).any (fun pool => pool.threads[1]?.any (ended false) &&
      pool.threads[2]?.any (ended true)) = true := by decide +kernel
  obtain ⟨pool, hpool, hcheck⟩ := reachable_of_run hrun
  obtain ⟨hfirst, hsecond⟩ := Bool.and_eq_true_iff.mp hcheck
  exact ⟨pool, hpool, (Option.any_eq_true _ _).mp hfirst, (Option.any_eq_true _ _).mp hsecond⟩

theorem refresh_settled : ∃ pool : ExchangePool,
    (∃ p ∈ pool.store.refreshTokens, p.tokenHash = sha256 "fatr_id-3" ∧
      ∀ u ∈ pool.store.refreshTokens, u.familyId = p.familyId → u.revokedAt.isSome = true) ∧
    ∃ u ∈ pool.threads, ∃ d ∈ u.log, ∃ r, apply d.operation d.before = d.before.rotated r := by
  obtain ⟨pool, hpool, ⟨t, ht, htended⟩, u, hu, huended⟩ := exists_refreshTwice
  obtain ⟨input, client, htcall, htoken, htresult⟩ := call_of_ended htended
  obtain ⟨_, _, hucall, _, reply, huresult⟩ := call_of_ended huended
  have hmem := List.mem_of_getElem? hu
  obtain ⟨p, hp, hhash, _, hdead⟩ :=
    (refresh_settles hpool (List.mem_of_getElem? ht) htcall).2 htresult
  obtain ⟨_, r, _, _, d, hd, _, heffect, _⟩ :=
    (refresh_settles hpool hmem hucall).1 reply huresult
  exact ⟨pool, ⟨p, hp, by rw [hhash, htoken], hdead⟩, u, hmem, d, hd, r, heffect⟩

theorem refresh_token_used_once : ∃ (pool : ExchangePool) (i j : ℕ)
    (t u : Thread Call Site SiteOperation Failure Reply), pool.threads[i]? = some t ∧
      pool.threads[j]? = some u ∧ ended true t = true ∧ ended true u = true ∧ i = j := by
  obtain ⟨pool, hpool, _, u, hu, huended⟩ := exists_refreshTwice
  obtain ⟨input, client, hucall, _, reply, huresult⟩ := call_of_ended huended
  exact ⟨pool, 2, 2, u, u, hu, hu, huended, huended,
    refresh_token_single_use hpool hu hu hucall hucall rfl huresult huresult⟩

end Sample

end FlareAuth.TokenExchange
