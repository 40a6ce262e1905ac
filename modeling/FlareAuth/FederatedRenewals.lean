import FlareAuth.FederatedCredentials

/-!
# Renewals under a federated credential

A refresh finds the credential of its token again: enabled, of the presenting client, with the
audience and the issuer of the token. It does not compare the subject, so whether a renewal follows
the credential is up to the pattern that the credential has by then.
-/

namespace FlareAuth.TokenExchange

open Concurrent Procedure

def CredentialOperation.isRead : CredentialOperation → Bool
  | .site op => op.isRead
  | .deleteFederatedCredential _ _ => false

def lastLook (log : Log Site CredentialOperation) : Option Site :=
  log.lastBefore CredentialOperation.isRead

theorem lastLook_inject (log : ExchangeLog) : lastLook (Log.inject .site log) = lastSeen log :=
  Log.lastBefore_inject

/-- The credential of a token is there, enabled and of the client, and stands for the audience, the
issuer and the subject of the token. -/
def Site.Follows (s : Site) (clientId : String) (grant : TokenGrant) : Prop :=
  ∃ c, s.findFederatedCredentialForClient grant.credentialId clientId = some c ∧
    c.enabled = true ∧ c.audience = grant.audience ∧ c.issuer = grant.subjectTokenIssuer ∧
    subjectMatches c.subject grant.subject = true

/-- The pattern of the credential that is found for a token accepts its subject. -/
def Site.Accepts (s : Site) (clientId : String) (grant : TokenGrant) : Prop :=
  ∀ c, s.findFederatedCredentialForClient grant.credentialId clientId = some c →
    subjectMatches c.subject grant.subject = true

/-- The presented token of a refresh that has rotated it, and the store it last looked at. -/
structure Renewed (log : Log Site CredentialOperation) (input : TokenRefreshRequest)
    (client : ClientCredentials) (parent : RefreshTokenRow) (seen : Site) : Prop where
  presented : ∃ d ∈ log, d.before.findRefreshTokenByHash (sha256 input.refreshToken) = some parent
  client : parent.grant.clientId = client.clientId
  rotated : ∃ d ∈ log, ∃ r, d.operation = .site (.rotateRefreshToken r) ∧
    r.refreshToken.parentId = some parent.id
  seen : lastLook log = some seen

theorem Site.exists_of_mem_resolvedCredentials {s : Site} {c : ResolvedFederatedCredential}
    (h : c ∈ s.resolvedCredentials) :
    ∃ row ∈ s.federatedCredentials, row.id = c.id ∧ row.issuer = c.issuer ∧
      row.subject = c.subject := by
  obtain ⟨row, hrow, hresolve⟩ := List.mem_filterMap.mp h
  refine ⟨row, hrow, ?_⟩
  simp only [Site.resolve, Option.bind_eq_bind, Option.bind_eq_some_iff] at hresolve
  obtain ⟨_, _, _, _, _, _, hc⟩ := hresolve
  obtain rfl := Option.some.inj hc
  exact ⟨rfl, rfl, rfl⟩

/-- A token has the issuer of a credential of the history with its credential's identifier. -/
def IssuedUnder (history : List Site) (grant : TokenGrant) : Prop :=
  ∃ s ∈ history, ∃ c ∈ s.federatedCredentials,
    c.id = grant.credentialId ∧ c.issuer = grant.subjectTokenIssuer

theorem IssuedUnder.mono {history history' : List Site} {grant : TokenGrant}
    (h : IssuedUnder history grant) (hsubset : history ⊆ history') :
    IssuedUnder history' grant := by
  obtain ⟨s, hs, c, hc, hcredential⟩ := h
  exact ⟨s, hsubset hs, c, hc, hcredential⟩

section History

variable [Locale] {pool : CredentialPool}

/-- A credential after a step is one of the history, or was created under a fresh identifier. -/
theorem credential_cases (h : CredentialReachable pool) {i : ℕ} {t : CredentialThread}
    {op : CredentialOperation} (hpending : pool.pending i = some (t, op)) {s : Site}
    (hs : s ∈ apply op pool.store :: pool.history) {c : FederatedCredential}
    (hc : c ∈ s.federatedCredentials) :
    (∃ s₀ ∈ pool.history, ∃ c₀ ∈ s₀.federatedCredentials, c₀.id = c.id ∧ c₀.issuer = c.issuer) ∨
      (op = .site (.createFederatedCredential c) ∧
        ∀ s₀ ∈ pool.history, ∀ c₀ ∈ s₀.federatedCredentials, c₀.id ≠ c.id) := by
  rcases List.mem_cons.mp hs with rfl | hs
  · rcases mem_federatedCredentials_apply hc with ⟨c₀, hc₀, hpersists⟩ | rfl
    · exact .inl ⟨pool.store, List.mem_cons_self, c₀, hc₀, hpersists.id.symm, hpersists.issuer.symm⟩
    · exact .inr ⟨rfl, credential_fresh_of_pending h hpending⟩
  · exact .inl ⟨s, hs, c, hc, rfl, rfl⟩

/-- Two credentials of one identifier, at whatever times, have one issuer. -/
theorem issuers_agree (h : CredentialReachable pool) : ∀ s ∈ pool.history,
    ∀ c ∈ s.federatedCredentials, ∀ s' ∈ pool.history, ∀ c' ∈ s'.federatedCredentials,
      c.id = c'.id → c.issuer = c'.issuer := by
  refine h.keeps_past (I := fun store past => ∀ s ∈ store :: past, ∀ c ∈ s.federatedCredentials,
    ∀ s' ∈ store :: past, ∀ c' ∈ s'.federatedCredentials, c.id = c'.id → c.issuer = c'.issuer)
    (fun s hs => by simp [hs.federatedCredentials]) fun pool i t op hpool _ hpending ih => ?_
  intro s hs c hc s' hs' c' hc' hid
  rcases credential_cases hpool hpending hs hc with ⟨u, hu, d, hd, hdid, hdissuer⟩ | ⟨hop, hfresh⟩
  · rcases credential_cases hpool hpending hs' hc' with
      ⟨u', hu', d', hd', hdid', hdissuer'⟩ | ⟨_, hfresh'⟩
    · rw [← hdissuer, ← hdissuer']
      exact ih u hu d hd u' hu' d' hd' ((hdid.trans hid).trans hdid'.symm)
    · exact absurd (hdid.trans hid) (hfresh' u hu d hd)
  · rcases credential_cases hpool hpending hs' hc' with
      ⟨u', hu', d', hd', hdid', _⟩ | ⟨hop', _⟩
    · exact absurd (hdid'.trans hid.symm) (hfresh u' hu' d' hd')
    · rw [hop] at hop'
      cases hop'
      rfl

/-- A token that a pending operation stores is issued under a credential, if the stored ones are. -/
theorem issuedUnder_of_pending (h : CredentialReachable pool)
    (ih : ∀ s ∈ pool.history, ∀ u ∈ s.refreshTokens, IssuedUnder pool.history u.grant) {i : ℕ}
    {t : CredentialThread} {op : SiteOperation} (hpending : pool.pending i = some (t, .site op))
    {row : RefreshTokenRow} (hrow : op.storedRefreshToken = some row) :
    IssuedUnder pool.history row.grant := by
  obtain ⟨ht, rfl | ⟨call, log, _, hlog, hrenewing, _⟩⟩ :=
    h.pending_obeys program_founded hpending
  · cases hrow
  have hpast : ∀ d ∈ log, d.before ∈ pool.history := by
    intro d hd
    have hmem : (⟨.site d.operation, d.before⟩ : Event Site CredentialOperation) ∈ t.log := by
      rw [hlog]
      exact Log.mem_inject hd
    exact List.mem_cons_of_mem _ (h.before_mem_past t ht _ hmem)
  cases op with
  | insertRefreshToken input =>
    obtain rfl : input = row := Option.some.inj hrow
    obtain ⟨d, hd, c, hc, hid, hissuer, _⟩ := hrenewing.credential
    obtain ⟨c₀, hc₀, hid₀, hissuer₀, _⟩ := Site.exists_of_mem_resolvedCredentials hc
    exact ⟨d.before, hpast d hd, c₀, hc₀, hid₀.trans hid, hissuer₀.trans hissuer⟩
  | rotateRefreshToken r =>
    obtain rfl : r.refreshToken = row := Option.some.inj hrow
    obtain ⟨_, _, _, parent, _, hrenews⟩ := hrenewing
    obtain ⟨d, hd, hfound⟩ := hrenews.presented
    have hparent := ih d.before (hpast d hd) parent (List.mem_of_find?_eq_some hfound)
    rw [hrenews.grant]
    exact hparent
  | _ => cases hrow

theorem issuedUnder_of_reachable (h : CredentialReachable pool) :
    ∀ s ∈ pool.history, ∀ u ∈ s.refreshTokens, IssuedUnder pool.history u.grant := by
  refine h.keeps_past (I := fun store past => ∀ s ∈ store :: past, ∀ u ∈ s.refreshTokens,
    IssuedUnder (store :: past) u.grant) (fun s hs => by simp [hs.refreshTokens])
    fun pool i t op hpool _ hpending ih s hs u hu => ?_
  have hlater : pool.history ⊆ apply op pool.store :: pool.history := List.subset_cons_self _ _
  rcases List.mem_cons.mp hs with rfl | hs
  · rcases mem_refreshTokens_apply hu with ⟨u₀, hu₀, hpersists⟩ | ⟨op₀, row, rfl, hrow, hpersists⟩
    · rw [hpersists.grant]
      exact (ih pool.store List.mem_cons_self u₀ hu₀).mono hlater
    · rw [hpersists.grant]
      exact (issuedUnder_of_pending hpool ih hpending hrow).mono hlater
  · exact (ih s hs u hu).mono hlater

/-- The issuer of a stored token is that of every credential which ever has its credential's
identifier. -/
theorem issuer_of_token (h : CredentialReachable pool) {s s' : Site} (hs : s ∈ pool.history)
    {u : RefreshTokenRow} (hu : u ∈ s.refreshTokens) (hs' : s' ∈ pool.history)
    {c : FederatedCredential} (hc : c ∈ s'.federatedCredentials)
    (hid : c.id = u.grant.credentialId) : c.issuer = u.grant.subjectTokenIssuer := by
  obtain ⟨s₀, hs₀, c₀, hc₀, hid₀, hissuer⟩ := issuedUnder_of_reachable h s hs u hu
  rw [← hissuer]
  exact issuers_agree h s' hs' c hc s₀ hs₀ c₀ hc₀ (hid.trans hid₀.symm)

end History

section Renewals

variable [Locale] {pool : CredentialPool}

/-- A refresh that has returned, with the token it renewed and the store it last looked at. -/
theorem renewed_of_done (h : CredentialReachable pool) {t : CredentialThread}
    (ht : t ∈ pool.threads) {input : TokenRefreshRequest} {client : ClientCredentials}
    {issuer : String} {reply : Reply}
    (hcall : t.call = .exchange (.refreshToken input client issuer))
    (hdone : t.rest = .done reply) :
    ∃ parent seen, Renewed t.log input client parent seen ∧
      seen.HasEligibleCredential parent.grant := by
  have hprogram : ∀ c : CredentialCall, c.program.Obeys (fun _ _ _ => True)
      (fun log r => ∀ input client issuer, c = .exchange (.refreshToken input client issuer) →
        ∀ reply, r = .ok reply → ∃ parent seen, Renewed log input client parent seen ∧
          seen.HasEligibleCredential parent.grant) [] := by
    intro c
    by_cases hc : ∃ input client issuer, c = .exchange (.refreshToken input client issuer)
    · obtain ⟨input, client, issuer, rfl⟩ := hc
      have hleaves := (leaves_refreshToken input client issuer).bind
        (f := fun response => (done (.token response) : Exchange Reply)) (Q := fun _ log =>
          ∃ parent seen r,
            (∃ d ∈ log, d.before.findRefreshTokenByHash (sha256 input.refreshToken) = some parent) ∧
            parent.grant.clientId = client.clientId ∧
            (∃ d ∈ log, d.operation = .rotateRefreshToken r) ∧
            r.refreshToken.parentId = some parent.id ∧
            lastSeen log = some seen ∧ seen.HasEligibleCredential parent.grant)
        fun _ _ hrefreshed => hrefreshed
      refine (hleaves.obeys []).inject (fun _ _ _ _ => trivial) fun log r hlog => ?_
      rintro input' client' issuer' hsame reply rfl
      cases hsame
      obtain ⟨new, rfl, parent, seen, r, ⟨d, hd, hfound⟩, hclient, ⟨e, he, hrotates⟩,
        hparent, hseen,
        hcredential⟩ := hlog reply rfl
      rw [List.append_nil]
      refine ⟨parent, seen, ⟨⟨_, Log.mem_inject hd, hfound⟩, hclient,
        ⟨_, Log.mem_inject he, r, congrArg _ hrotates, hparent⟩, ?_⟩, hcredential⟩
      rw [lastLook_inject, hseen]
    · refine (only_true _).obeys (fun _ _ _ _ => trivial) (fun _ _ _ _ => ?_) fun _ _ _ => ?_
      · exact fun input client issuer hsame => absurd ⟨input, client, issuer, hsame⟩ hc
      · exact fun _ _ _ _ _ hr => nomatch hr
  exact h.returned hprogram ht hdone input client issuer hcall reply rfl

/-- A refresh that has returned followed the credential of its token if and only if the pattern of
the credential that it found accepts the subject of the token. -/
theorem refresh_follows_credential_iff (h : CredentialReachable pool) {t : CredentialThread}
    (ht : t ∈ pool.threads) {input : TokenRefreshRequest} {client : ClientCredentials}
    {issuer : String} {reply : Reply}
    (hcall : t.call = .exchange (.refreshToken input client issuer))
    (hdone : t.rest = .done reply) :
    ∃ parent seen, Renewed t.log input client parent seen ∧
      (seen.Follows client.clientId parent.grant ↔ seen.Accepts client.clientId parent.grant) := by
  obtain ⟨parent, seen, hrenewed, c, hfound, henabled, haudience, _⟩ :=
    renewed_of_done h ht hcall hdone
  rw [hrenewed.client] at hfound
  refine ⟨parent, seen, hrenewed, fun ⟨c', hfound', _, _, _, haccepts⟩ d hd => ?_,
    fun haccepts => ⟨c, hfound, henabled, haudience, ?_, haccepts c hfound⟩⟩
  · obtain rfl := Option.some.inj (hfound'.symm.trans hd)
    exact haccepts
  obtain ⟨hid, -⟩ : c.id = parent.grant.credentialId ∧ _ := by simpa using List.find?_some hfound
  obtain ⟨row, hrow, hrowId, hrowIssuer, _⟩ :=
    Site.exists_of_mem_resolvedCredentials (List.mem_of_find?_eq_some hfound)
  obtain ⟨d, hd, hpresented⟩ := hrenewed.presented
  obtain ⟨e, he, rfl⟩ := Log.mem_of_lastBefore hrenewed.seen
  have hbefore := h.before_mem_past t ht
  rw [← hrowIssuer]
  exact issuer_of_token h (List.mem_cons_of_mem _ (hbefore d hd))
    (List.mem_of_find?_eq_some hpresented) (List.mem_cons_of_mem _ (hbefore e he)) hrow
    (hrowId.trans hid)

end Renewals

section Samples

def blankSite : Site := { Sample.site with federatedCredentials := [] }

theorem blankSite_blank : blankSite.Blank := ⟨⟨⟨rfl, rfl, rfl, rfl⟩, rfl, rfl, rfl⟩, rfl⟩

/-- A credential for the subject `job` is created, its subject token exchanged, its pattern set
anew, and the refresh token redeemed. -/
def renewAfterUpdate (subject : String) : List (Move CredentialCall) :=
  Move.alone 0 (.exchange
      (.createFederatedCredential "application" ⟨"ci", "job", "notes", .ok ()⟩)) 5 ++
    Move.alone 1 (.exchange (.exchangeToken Sample.exchange Sample.credentials "iss")) 19 ++
    Move.alone 2 (.exchange (.updateFederatedCredential "application" "id-0"
      ⟨some subject, none, none⟩ (.ok ()))) 3 ++
    Move.alone 3 (.exchange
      (.refreshToken ⟨refreshTokenGrantType, "fatr_id-4", none⟩ Sample.credentials "iss")) 18

/-- A refresh has returned, having last seen credentials of one subject only, and tokens of one
subject only. -/
def hasRenewed (pattern subject : String) (t : CredentialThread) : Bool :=
  match t.call, t.rest with
  | .exchange (.refreshToken _ _ _), .done _ =>
    ((lastLook t.log).all fun s => s.federatedCredentials.all fun c => c.subject == pattern) &&
      t.log.all fun d => d.before.refreshTokens.all fun u => u.grant.subject == subject
  | _, _ => false

theorem hasRenewed_inv {pattern subject : String} {t : CredentialThread}
    (h : hasRenewed pattern subject t = true) :
    ∃ input client issuer reply, t.call = .exchange (.refreshToken input client issuer) ∧
      t.rest = .done reply ∧
      (∀ s, lastLook t.log = some s → ∀ c ∈ s.federatedCredentials, c.subject = pattern) ∧
      ∀ d ∈ t.log, ∀ u ∈ d.before.refreshTokens, u.grant.subject = subject := by
  unfold hasRenewed at h
  split at h
  · rename_i input client issuer reply hcall hdone
    simp only [Bool.and_eq_true, List.all_eq_true, beq_iff_eq] at h
    refine ⟨input, client, issuer, reply, hcall, hdone, fun s hs => ?_, h.2⟩
    have hpattern := h.1
    rw [hs] at hpattern
    simpa using hpattern
  · cases h

theorem renewal_of_run [Locale] {pattern subject newPattern : String}
    (h : ((Pool.initial blankSite).run CredentialCall.program (fun _ _ => true)
      (renewAfterUpdate newPattern)).any
        (fun pool => pool.threads.any (hasRenewed pattern subject)) = true) :
    ∃ pool : CredentialPool, CredentialReachable pool ∧
      ∃ t ∈ pool.threads, hasRenewed pattern subject t = true := by
  obtain ⟨pool, hpool, hcheck⟩ := (Option.any_eq_true _ _).mp h
  exact ⟨pool, Reachable.of_run (fun _ _ _ => trivial) (.initial blankSite_blank) hpool,
    List.any_eq_true.mp hcheck⟩

set_option maxRecDepth 10000 in
theorem refresh_follows_credential_sample : ∃ pool : CredentialPool, ∃ t ∈ pool.threads,
    ∃ input client parent seen, Renewed t.log input client parent seen ∧
      (seen.Follows client.clientId parent.grant ↔ seen.Accepts client.clientId parent.grant) := by
  obtain ⟨pool, hpool, t, ht, hrenewed⟩ :=
    @renewal_of_run _ "job" "job" "job" (by decide +kernel)
  obtain ⟨input, client, issuer, reply, hcall, hdone, _⟩ := hasRenewed_inv hrenewed
  exact ⟨pool, t, ht, input, client, refresh_follows_credential_iff hpool ht hcall hdone⟩

set_option maxRecDepth 10000 in
/-- A token of the subject `job` is renewed after its credential was narrowed to another subject. -/
theorem renewal_outlives_subject : ∃ pool : CredentialPool, CredentialReachable pool ∧
    ∃ t ∈ pool.threads, ∃ input client issuer reply parent seen,
      t.call = .exchange (.refreshToken input client issuer) ∧ t.rest = .done reply ∧
      Renewed t.log input client parent seen ∧ ¬seen.Follows client.clientId parent.grant := by
  obtain ⟨pool, hpool, t, ht, hsubjects⟩ :=
    @renewal_of_run _ "other" "job" "other" (by decide +kernel)
  obtain ⟨input, client, issuer, reply, hcall, hdone, hpattern, htoken⟩ := hasRenewed_inv hsubjects
  obtain ⟨parent, seen, hrenewed, _⟩ := renewed_of_done hpool ht hcall hdone
  refine ⟨pool, hpool, t, ht, input, client, issuer, reply, parent, seen, hcall, hdone,
    hrenewed, ?_⟩
  rintro ⟨c, hfound, _, _, _, haccepts⟩
  obtain ⟨row, hrow, _, _, hsubject⟩ :=
    Site.exists_of_mem_resolvedCredentials (List.mem_of_find?_eq_some hfound)
  obtain ⟨d, hd, hpresented⟩ := hrenewed.presented
  rw [← hsubject, hpattern seen hrenewed.seen row hrow,
    htoken d hd parent (List.mem_of_find?_eq_some hpresented)] at haccepts
  revert haccepts
  decide +kernel

end Samples

end FlareAuth.TokenExchange
