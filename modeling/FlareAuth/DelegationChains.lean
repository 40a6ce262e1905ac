import FlareAuth.ExchangeAudits
import FlareAuth.ScopeSightings
import FlareAuth.TokenPayloads

/-!
# Chains of delegated exchanges

A delegated exchange hands the subject, the actor and the Organization of its source token on, and
its scopes and its end stay within what the source token, the policy, the Application and the user
allow. A token that it issues is read back as it was signed, so a chain of exchanges of any length
only attenuates what its first source token allowed.
-/

namespace FlareAuth.Delegation

open Concurrent Procedure TokenExchange

/-- What a token takes over from the claims that it descends from. -/
structure Attenuates (claims : Json) (i : AccessTokenInput) : Prop where
  subject : readString (claims.field "sub") = some i.subject
  organization : claims.field TokenExchange.realmrootOrganizationClaim = i.organization
  acts : (claims.field "act").isSome = i.actor.isSome
  actor : readActor claims = i.actor
  expires : ∃ exp : ℕ, readNumber (claims.field "exp") = some (exp : ℤ) ∧ i.expiresAt ≤ exp * 1000

def ActorIsActive (subject : Id) (actor : Actor) (seen : List Realm) : Prop :=
  ∃ r ∈ seen, ∃ identity, r.site.access.directory.findByIssuerSubject actor.iss actor.sub =
    some identity ∧ ∃ r' ∈ seen, ∃ current,
      r'.site.access.directory.findIdentity identity.id = some current ∧
      current.status = .active ∧ current.ownerUserId = subject ∧
      ∃ b ∈ r'.site.access.directory.bindingsOf current.id, b.status = .active ∧ b.revokedAt = none

/-- What one exchange of a token with these claims has checked, at the moments it has seen. -/
structure Hop (input : ExchangeRequest) (issuer clientId : String) (claims : Json)
    (application : Application) (seen : List Realm) (i : AccessTokenInput) : Prop where
  attenuates : Attenuates claims i
  issuer : i.issuer = issuer
  clientId : i.clientId = clientId
  audience : i.audience = input.audience
  lifetime : i.expiresAt ≤ i.issuedAt + 300 * 1000
  nonempty : i.scopes ≠ []
  online : "offline_access" ∉ i.scopes
  unbanned : ∃ r ∈ seen, ∃ u ∈ r.site.access.directory.users, u.id = i.subject ∧ u.banned = false
  active : ∀ actor, i.actor = some actor → ActorIsActive i.subject actor seen
  scopes : ∃ source target mappings organizationId,
    (∃ r ∈ seen, r.site.access.directory.findResourceByResourceUrl source.resourceUrl =
      some source) ∧
    (∃ r ∈ seen, r.site.access.directory.findResourceByResourceUrl input.audience =
      some target) ∧
    readSingleAudience (claims.field "aud") = some source.resourceUrl ∧
    findScopeMappings application source.id target.id = some mappings ∧
    i.organization = organizationId.map Json.string ∧
    ∀ scope ∈ i.scopes,
      scope ∈ mappedTargetScopes mappings source
        (parseSpaceSeparatedClaim (claims.field "scope")) ∧
      (∃ now, ApplicationAllows application target input.scope now
        (seen.map (·.site.access)) scope) ∧
      ∃ now, UserHeld i.subject target organizationId now (seen.map (·.site.access)) scope

theorem ActorIsActive.mono {subject : Id} {actor : Actor} {seen seen' : List Realm}
    (h : ActorIsActive subject actor seen) (hsubset : seen ⊆ seen') :
    ActorIsActive subject actor seen' := by
  obtain ⟨r, hr, identity, hidentity, r', hr', current⟩ := h
  exact ⟨r, hsubset hr, identity, hidentity, r', hsubset hr', current⟩

section Reading

variable {claims : Json} {i j : AccessTokenInput}

theorem readString_eq_some {value : Option Json} {text : String}
    (h : readString value = some text) :
    value = some (.string text) ∧ text ≠ "" := by
  unfold readString at h
  split at h
  · split at h
    · cases h
    · rename_i hne
      obtain rfl := Option.some.inj h
      exact ⟨rfl, hne⟩
  · cases h

theorem readActor_eq_some {a : Actor} (h : readActor claims = some a) :
    a.iss ≠ "" ∧ a.sub ≠ "" := by
  obtain ⟨iss, hiss, h⟩ := Option.bind_eq_some_iff.mp h
  obtain ⟨sub, hsub, h⟩ := Option.bind_eq_some_iff.mp h
  obtain rfl := Option.some.inj h
  obtain ⟨act, hact, hiss⟩ := Option.bind_eq_some_iff.mp hiss
  obtain ⟨act', hact', hsub⟩ := Option.bind_eq_some_iff.mp hsub
  exact ⟨(readString_eq_some hiss).2, (readString_eq_some hsub).2⟩

/-- An actor that was read is read again from the token that was signed for it. -/
theorem readActor_payload (h : readActor claims = i.actor) : readActor i.payload = i.actor := by
  cases hactor : i.actor with
  | none => simp [readActor, actorIssuer, hactor, asRecord]
  | some a =>
    obtain ⟨hiss, hsub⟩ := readActor_eq_some (h.trans hactor)
    have hact : asRecord (i.payload.field "act") =
        some (.object [("iss", .string a.iss), ("sub", .string a.sub)]) := by
      simp [hactor, asRecord]
    rw [readActor, actorIssuer, actorSubject, hact]
    simp [Json.field, hiss, hsub]

theorem Attenuates.trans (h : Attenuates claims i) (h' : Attenuates i.payload j) :
    Attenuates claims j := by
  obtain ⟨exp, hexp, hwithin⟩ := h.expires
  obtain ⟨exp', hexp', hwithin'⟩ := h'.expires
  have hsubject : i.subject = j.subject := by
    have hread := (readString_eq_some h'.subject).1
    simpa using hread
  refine ⟨h.subject.trans (congrArg some hsubject), ?_, ?_, ?_, exp, hexp, ?_⟩
  · rw [h.organization, ← h'.organization, AccessTokenInput.field_organization]
  · rw [h.acts, ← h'.acts, AccessTokenInput.field_act, Option.isSome_map]
  · rw [h.actor, ← h'.actor, readActor_payload h.actor]
  · have hsame : ((i.expiresAt / 1000 : ℕ) : ℤ) = (exp' : ℤ) := by
      simpa using hexp'
    have hle : j.expiresAt ≤ i.expiresAt / 1000 * 1000 := by
      rwa [Int.ofNat.inj hsame]
    exact hle.trans ((Nat.div_mul_le_self _ _).trans hwithin)

end Reading

section Sightings

variable {α : Type}

theorem sees_onSite {p : Exchange α} {P : α → List Site → Prop} (h : p.Sees P) :
    (onSite p).Sees fun a seen => P a (seen.map (·.site)) := h.attempt

theorem sees_lookup (answer : Directory → α) : (look answer).Sees fun a seen =>
    ∃ r : Realm, a = answer r.site.access.directory ∧ seen = [r] :=
  fun r => sees_unlessFailed ⟨r, rfl, rfl⟩

theorem sees_now : clock.Sees fun now seen => ∃ r : Realm, now = r.site.access.now ∧ seen = [r] :=
  fun r => sees_unlessFailed ⟨r, rfl, rfl⟩

theorem sees_requireUnexpired (exp : ℤ) (description : String) :
    (requireUnexpired exp description).Sees fun n _ => exp = (n : ℤ) := by
  refine sees_now.bind fun now _ _ => (sees_require _ _).bind fun _ _ ⟨hexp, _⟩ => sees_done ?_
  omega

theorem sees_requireActiveDelegatedUser (subject : Id) :
    (requireActiveDelegatedUser subject).Sees fun _ seen =>
      ∃ r ∈ seen, ∃ u ∈ r.site.access.directory.users, u.id = subject ∧ u.banned = false := by
  have hchecked : (do
      let user ← getUser subject
      require (!user.banned) (oauthError "invalid_grant"
        "Subject access token does not represent an active User.") : Delegated Unit).Sees
      fun _ seen => ∃ r ∈ seen, ∃ u ∈ r.site.access.directory.users,
        u.id = subject ∧ u.banned = false := by
    have huser : (getUser subject).Sees fun user seen => ∃ r ∈ seen,
        user ∈ r.site.access.directory.users ∧ user.id = subject := by
      refine (sees_lookup _).bind fun found first ⟨r, hfound, hfirst⟩ => ?_
      refine (sees_orThrow _ _).mono fun user seen ⟨huser, hnone⟩ => ⟨r, by simp [hfirst], ?_⟩
      rw [hfound] at huser
      exact ⟨List.mem_of_find?_eq_some huser, by simpa using List.find?_some huser⟩
    refine huser.bind fun user first ⟨r, hr, hmem, hid⟩ => ?_
    refine (sees_require _ _).mono fun _ seen ⟨hbanned, hnone⟩ => ⟨r, ?_, user, hmem, hid, ?_⟩
    · simp [hr]
    · simpa using hbanned
  refine hchecked.tryCatch fun e earlier => ?_
  split <;> exact trivial

theorem sees_requireActiveBinding {identity : Option AgentIdentity} {subject : Id}
    (bindingId : Option Id) : (requireActiveBinding identity subject bindingId).Sees fun _ seen =>
      ∃ known, identity = some known ∧ ∃ r ∈ seen, ∃ current,
        r.site.access.directory.findIdentity known.id = some current ∧
        current.status = .active ∧ current.ownerUserId = subject ∧
        ∃ b ∈ r.site.access.directory.bindingsOf current.id, b.status = .active ∧
          b.revokedAt = none := by
  refine (sees_orThrow _ _).bind fun known _ ⟨hknown, _⟩ => ?_
  refine (sees_lookup _).bind fun aggregate first ⟨r, haggregate, hfirst⟩ => ?_
  refine (sees_require _ _).mono fun _ seen ⟨hactive, _⟩ => ⟨known, hknown, r, by simp [hfirst], ?_⟩
  rw [haggregate] at hactive
  cases hcurrent : r.site.access.directory.findIdentity known.id with
  | none =>
    rw [hcurrent] at hactive
    cases hactive
  | some current =>
    rw [hcurrent, Option.map_some, Option.any_some, decide_eq_true_eq] at hactive
    obtain ⟨hstatus, _, howner, hbinding⟩ := hactive
    obtain ⟨b, hb, hbinding⟩ := List.any_eq_true.mp hbinding
    simp only [Bool.and_eq_true, decide_eq_true_eq, Option.isNone_iff_eq_none] at hbinding
    exact ⟨current, rfl, hstatus, howner, b, hb, hbinding.1.2, hbinding.2⟩

theorem sees_requireActiveDelegatedAgent (input : ExchangeRequest) (claims : Json)
    (source : ApiResource) (ownerId subject : Id) (organizationId : Option Id) :
    (requireActiveDelegatedAgent input claims source ownerId subject organizationId).Sees
      fun actor seen => readActor claims = some actor ∧ ActorIsActive subject actor seen := by
  refine (sees_orThrow _ _).bind fun actor _ ⟨hactor, _⟩ => ?_
  refine (sees_orThrow _ _).bind fun _ _ _ => (sees_orThrow _ _).bind fun sourceClientId _ _ => ?_
  refine (sees_lookup _).bind fun identity first ⟨r, hidentity, hfirst⟩ => ?_
  have hlater : ∀ (a : Actor) seen earlier, (readActor claims = some a ∧
      ActorIsActive subject a (seen ++ first)) → readActor claims = some a ∧
        ActorIsActive subject a (seen ++ earlier ++ first) := by
    rintro a seen earlier ⟨hread, hactive⟩
    exact ⟨hread, hactive.mono (by simp)⟩
  have hbinding : ∀ (organization : Option Organization) (membership : Option Member) bindingId,
      (do
        requireActiveBinding identity subject bindingId
        if organizationId.isSome then requireActiveMembership organization membership
        return actor : Delegated Actor).Sees fun a seen => readActor claims = some a ∧
          ActorIsActive subject a (seen ++ first) := by
    intro organization membership bindingId
    refine (sees_requireActiveBinding _).bind
      fun _ second ⟨known, hknown, r', hr', current, hcurrent⟩ => ?_
    have hactive : ∀ seen, r' ∈ seen → ActorIsActive subject actor (seen ++ first) :=
      fun seen hr' => ⟨r, by simp [hfirst], known, hidentity.symm.trans hknown, r', by simp [hr'],
        current, hcurrent⟩
    dsimp only
    split
    · refine (sees_true _).bind fun _ _ _ => sees_done ⟨hactor, hactive _ ?_⟩
      simp [hr']
    · exact sees_done ⟨hactor, hactive _ (by simpa using hr')⟩
  refine Sees.mono (P := fun a seen => readActor claims = some a ∧
    ActorIsActive subject a (seen ++ first)) ?_ fun a seen h => ⟨h.1, h.2.mono (by simp)⟩
  dsimp only
  by_cases hnative : sourceClientId = realmrootCliClientId
  · rw [if_pos hnative]
    refine Sees.after hlater _ fun _ => Sees.after hlater _ fun organization => ?_
    refine Sees.after hlater _ fun membership => ?_
    rw [if_pos hnative]
    refine Sees.after hlater _ fun lease => Sees.after hlater _ fun lease => ?_
    exact Sees.after hlater _ fun bindingId => hbinding organization membership bindingId
  · rw [if_neg hnative]
    refine Sees.after hlater _ fun sourceApplication => Sees.after hlater _ fun organization => ?_
    refine Sees.after hlater _ fun membership => ?_
    rw [if_neg hnative]
    refine Sees.after hlater _ fun _ => ?_
    exact Sees.after hlater _ fun bindingId => hbinding organization membership bindingId

/-- The actor of a token is that of its source token, and an Agent of the subject. -/
theorem sees_requireDelegatedActor (input : ExchangeRequest) (claims : Json)
    (source target : ApiResource) (application : Application) (subject : Id)
    (organizationId : Option Id) :
    (requireDelegatedActor input claims source target application subject organizationId).Sees
      fun actor seen => (claims.field "act").isSome = actor.isSome ∧ readActor claims = actor ∧
        ∀ a, actor = some a → ActorIsActive subject a seen := by
  unfold requireDelegatedActor
  cases hact : claims.field "act" with
  | none =>
    refine sees_done ⟨rfl, ?_, fun a ha => nomatch ha⟩
    simp [readActor, actorIssuer, hact, asRecord]
  | some act =>
    refine (sees_require _ _).bind fun _ _ _ => (sees_require _ _).bind fun _ _ _ => ?_
    refine (sees_require _ _).bind fun _ _ _ => (sees_require _ _).bind fun _ _ _ => ?_
    refine ((sees_requireActiveDelegatedAgent _ _ _ _ _ _).mono
      fun actor seen ⟨hread, hactive⟩ => ?_).map
    refine ⟨rfl, hread, fun a ha => ?_⟩
    obtain rfl := Option.some.inj ha
    obtain ⟨r, hr, known, hknown, r', hr', current⟩ := hactive
    exact ⟨r, by simp [hr], known, hknown, r', by simp [hr'], current⟩

theorem sees_sign (payload : Json) : (sign payload).Sees fun token _ => token = payload :=
  (sees_tryQuery _ _ _).mono fun _ _ ⟨_, htoken, _⟩ => htoken

/-- The claims that every exchange reads, by name. -/
theorem subjectClaims_of_read {issuer : String} {claims : Json} {source : SubjectClaims}
    (h : readSubjectClaims issuer claims = some source) :
    readString (claims.field "sub") = some source.subject ∧
      readSingleAudience (claims.field "aud") = some source.audience ∧
      readNumber (claims.field "exp") = some source.exp := by
  obtain ⟨subject, hsubject, h⟩ := Option.bind_eq_some_iff.mp h
  obtain ⟨_, _, h⟩ := Option.bind_eq_some_iff.mp h
  obtain ⟨audience, haudience, h⟩ := Option.bind_eq_some_iff.mp h
  obtain ⟨exp, hexp, h⟩ := Option.bind_eq_some_iff.mp h
  obtain rfl := Option.some.inj h
  exact ⟨hsubject, haudience, (Option.filter_eq_some_iff.mp hexp).1⟩

theorem organization_of_read {claims : Json} {organizationId : Option Id}
    (h : readOrganization claims = .ok organizationId) :
    claims.field TokenExchange.realmrootOrganizationClaim = organizationId.map Json.string := by
  unfold readOrganization at h
  split at h
  · rename_i hnone
    obtain rfl := Except.ok.inj h
    exact hnone
  · rename_i claim hclaim
    split at h
    · rename_i id hid
      obtain rfl := Except.ok.inj h
      rw [hclaim, (readString_eq_some hid).1]
      rfl
    · cases h

/-- What a delegated exchange answers: a token that was signed for what it has checked. -/
theorem sees_exchangeDelegatedUserToken (input : ExchangeRequest) (claims : Json)
    (clientId : String) (application : Application) (issuer : String) :
    (exchangeDelegatedUserToken input claims clientId application issuer).Sees
      fun response seen => response.refreshToken = none ∧ ∃ i : AccessTokenInput,
        response.accessToken = i.payload ∧ response.scope = Text.join i.scopes ∧
        Hop input issuer clientId claims application seen i := by
  refine (sees_orThrow _ _).bind fun source _ ⟨hsource, _⟩ => ?_
  refine (sees_requireUnexpired _ _).bind fun exp _ hexp => ?_
  refine (sees_requireActiveDelegatedUser _).bind fun _ first hunbanned => ?_
  refine (sees_lookup _).bind fun foundSource second ⟨r₁, hr₁, hsecond⟩ => ?_
  refine (sees_lookup _).bind fun foundTarget third ⟨r₂, hr₂, hthird⟩ => ?_
  refine (sees_orThrow _ _).bind fun sourceResource _ ⟨hsourceResource, _⟩ => ?_
  refine (sees_orThrow _ _).bind fun targetResource _ ⟨htargetResource, _⟩ => ?_
  refine (sees_orThrow _ _).bind fun mappings _ ⟨hmappings, _⟩ => ?_
  refine (sees_onSite (sees_resolveApplicationTokenScopesForResource _ _ _)).bind
    fun applicationScopes fourth ⟨s, hs, happlication⟩ => ?_
  refine (sees_ofExcept _).bind fun organizationId _ ⟨horganization, _⟩ => ?_
  refine (sees_requireDelegatedActor _ _ _ _ _ _ _).bind
    fun actor fifth ⟨hacts, hactor, hactive⟩ => ?_
  refine sees_now.bind fun now _ _ => ?_
  refine (sees_onSite (sees_userEffectiveResourceScopes _ _ _ _).lift).bind
    fun userScopes sixth huser => ?_
  refine (sees_require _ _).bind fun _ _ ⟨⟨hnonempty, honline⟩, _⟩ => ?_
  refine sees_now.bind fun issuedAt _ _ => ?_
  refine (sees_true _).bind fun jti _ _ => ?_
  refine (sees_sign _).bind fun token _ htoken => sees_done ⟨rfl, _, htoken, rfl, ?_⟩
  obtain ⟨hsubject, haudience, hend⟩ := subjectClaims_of_read hsource
  obtain ⟨r₀, hr₀, u, hu, hid, hbanned⟩ := hunbanned
  obtain ⟨rfl, hvisibleSource⟩ := Option.filter_eq_some_iff.mp hsourceResource
  obtain ⟨rfl, hvisibleTarget⟩ := Option.filter_eq_some_iff.mp htargetResource
  have hurl : sourceResource.resourceUrl = source.audience := by
    have hfound := List.find?_some hr₁.symm
    simp only [decide_eq_true_eq] at hfound
    exact hfound.1
  exact {
    attenuates := ⟨hsubject, organization_of_read horganization, hacts, hactor, exp,
      by rw [hend, hexp], min_le_right _ _⟩
    issuer := rfl
    clientId := rfl
    audience := rfl
    lifetime := min_le_left _ _
    nonempty := hnonempty
    online := by
      rwa [Bool.not_eq_true', ← Bool.not_eq_true, List.contains_iff_mem] at honline
    unbanned := ⟨r₀, by simp [hr₀], u, hu, hid, hbanned⟩
    active := fun a ha => (hactive a ha).mono fun t ht => by simp [ht]
    scopes := by
      refine ⟨sourceResource, targetResource, mappings, organizationId, ⟨r₁, by simp [hsecond], ?_⟩,
        ⟨r₂, by simp [hthird], hr₂.symm⟩, hurl ▸ haudience, hmappings, rfl, fun scope hscope => ?_⟩
      · rw [hurl, ← hr₁]
      · obtain ⟨hallowed, hboth⟩ := List.mem_filter.mp hscope
        rw [Bool.and_eq_true, List.contains_iff_mem, List.contains_iff_mem] at hboth
        refine ⟨hboth.1, ⟨_, (happlication scope hallowed).mono ?_⟩, _,
          (huser scope hboth.2).mono ?_⟩
        · intro t ht
          simp only [List.map_append, List.mem_append, List.map_map, Function.comp_def] at ht ⊢
          tauto
        · intro t ht
          simp only [List.map_append, List.mem_append, List.map_map, Function.comp_def] at ht ⊢
          tauto }

theorem Hop.mono {input : ExchangeRequest} {issuer clientId : String} {claims : Json}
    {application : Application} {seen seen' : List Realm} {i : AccessTokenInput}
    (h : Hop input issuer clientId claims application seen i) (hsubset : seen ⊆ seen') :
    Hop input issuer clientId claims application seen' i := by
  obtain ⟨r, hr, hbanned⟩ := h.unbanned
  obtain ⟨source, target, mappings, organizationId, ⟨r₁, hr₁, hsource⟩, ⟨r₂, hr₂, htarget⟩, hurl,
    hmappings, horganization, hscopes⟩ := h.scopes
  have hstores : seen.map (·.site.access) ⊆ seen'.map (·.site.access) := List.map_subset _ hsubset
  refine { h with
    unbanned := ⟨r, hsubset hr, hbanned⟩
    active := fun a ha => (h.active a ha).mono hsubset
    scopes := ⟨source, target, mappings, organizationId, ⟨r₁, hsubset hr₁, hsource⟩,
      ⟨r₂, hsubset hr₂, htarget⟩, hurl, hmappings, horganization, fun scope hscope => ?_⟩ }
  obtain ⟨hmapped, ⟨now, hallows⟩, now', hheld⟩ := hscopes scope hscope
  exact ⟨hmapped, ⟨now, hallows.mono hstores⟩, now', hheld.mono hstores⟩

/-- A response of an exchange of a token with these claims: an access token within them, and no
refresh token. -/
def Delegates (input : ExchangeRequest) (issuer clientId : String) (claims : Json)
    (application : Application) (response : ExchangedToken) (seen : List Realm) : Prop :=
  response.refreshToken = none ∧ ∃ i : AccessTokenInput, response.accessToken = i.payload ∧
    response.scope = Text.join i.scopes ∧ Hop input issuer clientId claims application seen i

theorem Delegates.mono {input : ExchangeRequest} {issuer clientId : String} {claims : Json}
    {application : Application} {response : ExchangedToken} {seen seen' : List Realm}
    (h : Delegates input issuer clientId claims application response seen)
    (hsubset : seen ⊆ seen') :
    Delegates input issuer clientId claims application response seen' := by
  obtain ⟨hrefresh, i, htoken, hscope, hhop⟩ := h
  exact ⟨hrefresh, i, htoken, hscope, hhop.mono hsubset⟩

theorem sees_exchangeVerifiedToken (input : ExchangeRequest) (claims : Json) (clientId : String)
    (application : Application) (issuer : String) :
    (exchangeVerifiedToken input claims clientId application issuer).Sees
      (Delegates input issuer clientId claims application) := by
  have hexchange := sees_exchangeDelegatedUserToken input claims clientId application issuer
  unfold exchangeVerifiedToken
  dsimp only
  split
  · exact hexchange
  · refine Sees.tryCatch (hexchange.bind fun response first h => ?_) fun e earlier =>
      (sees_true _).bind fun _ _ _ => trivial
    refine (sees_true _).bind fun _ second _ => sees_done ?_
    exact Delegates.mono h fun t ht => by simp [ht]

theorem sees_verifyRealmrootAccessToken (input : ExchangeRequest) :
    (verifyRealmrootAccessToken input).Sees fun claims _ => input.verification = .ok claims := by
  refine (sees_orThrow _ _).bind fun verifier _ ⟨hverifier, _⟩ => ?_
  refine (sees_ofExcept _).bind fun found _ ⟨hfound, _⟩ => ?_
  refine (sees_orThrow _ _).bind fun audience _ ⟨haudience, _⟩ => ?_
  refine Sees.tryCatch ?_ fun e earlier => trivial
  refine (sees_true _).bind fun _ _ _ => (sees_ofExcept _).mono fun claims _ ⟨hclaims, _⟩ => ?_
  rw [ExchangeRequest.verification, hverifier, hfound, haudience]
  exact hclaims

theorem sees_authenticateApplicationClient (client : ClientCredentials) :
    (authenticateApplicationClient client).Sees fun found seen =>
      found.1.clientId = client.clientId ∧
      ∃ s ∈ seen, s.findByClientId client.clientId = some found.2 ∧ found.2.disabled = false := by
  refine (sees_orThrow _ _).bind fun secret _ _ => ?_
  refine (sees_query _ _).bind fun foundClient _ ⟨s₁, hs₁, _⟩ => ?_
  refine (sees_query _ _).bind fun foundApplication first ⟨s, hs, hfirst⟩ => ?_
  refine (sees_orThrow _ _).bind fun oauthClient _ ⟨hclient, _⟩ => ?_
  refine (sees_orThrow _ _).bind fun application _ ⟨happlication, _⟩ => ?_
  refine (sees_true _).bind fun organization _ _ => ?_
  refine (sees_require _ _).bind fun _ _ _ => (sees_require _ _).bind fun _ _ _ => sees_done ?_
  obtain ⟨hclient, _⟩ := Option.filter_eq_some_iff.mp hclient
  obtain ⟨happlication, henabled⟩ := Option.filter_eq_some_iff.mp happlication
  refine ⟨?_, s, by simp [hfirst], hs.symm.trans happlication, by simpa using henabled⟩
  simpa using List.find?_some (hs₁.symm.trans hclient)

/-- What an exchange of an access token has checked of its client, its token and its answer. -/
def Answered (input : ExchangeRequest) (client : ClientCredentials) (issuer : String)
    (response : ExchangedToken) (seen : List Realm) : Prop :=
  ∃ claims application, input.verification = .ok claims ∧
    (∃ r ∈ seen, r.site.findByClientId client.clientId = some application ∧
      application.disabled = false) ∧
    Delegates input issuer client.clientId claims application response seen

theorem sees_exchangeToken {input : ExchangeRequest} (client : ClientCredentials) (issuer : String)
    (hrequested : input.requestedTokenType ≠ some idTokenType)
    (hsubject : input.subjectTokenType = accessTokenType) :
    (exchangeToken input client issuer).Sees (Answered input client issuer) := by
  refine (sees_require _ _).bind fun _ _ _ => ?_
  rw [if_neg hrequested, if_pos hsubject]
  have hauthorized : (authorizeExchange input.toTokenExchangeRequest client).Sees fun found seen =>
      found.1.clientId = client.clientId ∧
      ∃ s ∈ seen, s.findByClientId client.clientId = some found.2 ∧ found.2.disabled = false := by
    refine (sees_require _ _).bind fun _ _ _ => ?_
    refine (sees_authenticateApplicationClient client).bind
      fun found first ⟨hclient, s, hs, happlication⟩ => ?_
    refine (sees_require _ _).bind fun _ _ _ => (sees_require _ _).bind fun _ _ _ => sees_done ?_
    exact ⟨hclient, s, by simp [hs], happlication⟩
  refine (sees_onSite hauthorized).bind
    fun ⟨oauthClient, application⟩ first ⟨hclient, s, hs, happlication⟩ => ?_
  refine (sees_verifyRealmrootAccessToken input).bind fun claims _ hclaims => ?_
  refine (sees_exchangeVerifiedToken _ _ _ _ _).mono fun response seen h => ?_
  obtain ⟨r, hr, rfl⟩ := List.mem_map.mp hs
  refine ⟨claims, application, hclaims, ⟨r, by simp [hr], happlication⟩, ?_⟩
  rw [← hclient]
  exact h.mono fun t ht => by simp [ht]

end Sightings

section Chains

variable {pool : DelegationPool} {claims claims' : Json}

def Exchanges (pool : DelegationPool) (claims : Json) (input : ExchangeRequest)
    (client : ClientCredentials) (issuer : String) (response : ExchangedToken) : Prop :=
  ∃ t ∈ pool.threads, t.call = .exchangeToken input client issuer ∧
    input.requestedTokenType ≠ some idTokenType ∧ input.subjectTokenType = accessTokenType ∧
    input.verification = .ok claims ∧ t.rest.result = some (.ok (some response))

/-- The second claims are those of a token that was issued for a token with the first ones. -/
def Derives (pool : DelegationPool) (claims claims' : Json) : Prop :=
  ∃ input client issuer response, Exchanges pool claims input client issuer response ∧
    response.accessToken = claims'

theorem delegates_of_exchanges (h : DelegationReachable pool) {input : ExchangeRequest}
    {client : ClientCredentials} {issuer : String} {response : ExchangedToken}
    (hexchanges : Exchanges pool claims input client issuer response) :
    ∃ application, ∃ seen ⊆ pool.past,
      (∃ r ∈ seen, r.site.findByClientId client.clientId = some application ∧
        application.disabled = false) ∧
      Delegates input issuer client.clientId claims application response seen := by
  obtain ⟨t, ht, hcall, hrequested, hsubject, hclaims, hresult⟩ := hexchanges
  have hprogram : ∀ c : Call, c.program.Sees fun reply seen => ∀ input client issuer response,
      c = .exchangeToken input client issuer → input.requestedTokenType ≠ some idTokenType →
      input.subjectTokenType = accessTokenType → reply = some response →
      Answered input client issuer response seen := by
    intro c
    cases c with
    | exchangeToken input client issuer =>
      by_cases hplain : input.requestedTokenType ≠ some idTokenType ∧
          input.subjectTokenType = accessTokenType
      · refine ((sees_exchangeToken client issuer hplain.1 hplain.2).mono
          fun reply seen h => ?_).map
        rintro _ _ _ _ ⟨⟩ _ _ ⟨⟩
        exact h
      · refine (sees_true _).mono fun reply seen _ => ?_
        rintro _ _ _ _ ⟨⟩ hrequested hsubject
        exact absurd ⟨hrequested, hsubject⟩ hplain
    | site op => exact fun s => by rintro _ _ _ _ ⟨⟩
    | fault found => exact fun s => by rintro _ _ _ _ ⟨⟩
  have hdone : t.rest = .done (some response) := by
    cases hrest : t.rest <;> rw [hrest] at hresult <;> cases hresult
    rfl
  obtain ⟨seen, hseen, hanswered⟩ := h.seen ht hdone hprogram
  obtain ⟨claims₀, application, hclaims₀, happlication, hdelegates⟩ :=
    hanswered input client issuer response hcall hrequested hsubject rfl
  obtain rfl := Except.ok.inj (hclaims₀.symm.trans hclaims)
  exact ⟨application, seen, hseen, happlication, hdelegates⟩

/-- The token of these claims was issued by an exchange of the first ones that has checked, at
moments the run went through, the client, its Application and all that bounds the token. -/
def IssuedFor (pool : DelegationPool) (claims : Json) (i : AccessTokenInput) : Prop :=
  ∃ input client issuer response application, Exchanges pool claims input client issuer response ∧
    response.accessToken = i.payload ∧ response.refreshToken = none ∧ ∃ seen ⊆ pool.past,
      (∃ r ∈ seen, r.site.findByClientId client.clientId = some application ∧
        application.disabled = false) ∧
      Hop input issuer client.clientId claims application seen i

theorem issuedFor_of_derives (h : DelegationReachable pool)
    (hderives : Derives pool claims claims') :
    ∃ i : AccessTokenInput, claims' = i.payload ∧ Attenuates claims i ∧
      IssuedFor pool claims i := by
  obtain ⟨input, client, issuer, response, hexchanges, rfl⟩ := hderives
  obtain ⟨application, seen, hseen, happlication, hrefresh, i, htoken, _, hhop⟩ :=
    delegates_of_exchanges h hexchanges
  exact ⟨i, htoken, hhop.attenuates, input, client, issuer, response, application,
    hexchanges, htoken,
    hrefresh, seen, hseen, happlication, hhop⟩

/-- Chains of delegated exchanges only attenuate. Through any number of exchanges in any
interleaving, a token keeps the subject, the actor and the Organization of the token that the chain
began with and ends no later, and the last exchange has kept to what its own source token, its
policy, the client's Application and the user allowed. -/
theorem delegation_attenuates (h : DelegationReachable pool)
    (hchain : Relation.TransGen (Derives pool) claims claims') :
    ∃ i : AccessTokenInput, claims' = i.payload ∧ Attenuates claims i ∧
      ∃ middle, Relation.ReflTransGen (Derives pool) claims middle ∧ IssuedFor pool middle i := by
  induction hchain with
  | single hderives =>
    obtain ⟨i, htoken, hattenuates, hissued⟩ := issuedFor_of_derives h hderives
    exact ⟨i, htoken, hattenuates, claims, .refl, hissued⟩
  | tail hbefore hderives ih =>
    obtain ⟨first, rfl, hattenuates, _⟩ := ih
    obtain ⟨i, htoken, hlater, hissued⟩ := issuedFor_of_derives h hderives
    exact ⟨i, htoken, hattenuates.trans hlater, _, hbefore.to_reflTransGen, hissued⟩

end Chains

namespace Sample

/-- The signed claims of the token that the sample's exchange issues. -/
def issued : AccessTokenInput :=
  ⟨"iss", "app", "u", "https://notes", ["read"], none, some ⟨"iss", "sub"⟩, 0, 100000, "id-0"⟩

def exchangeAgain : ExchangeRequest :=
  { exchange with verifier := some fun _ => .ok issued.payload }

/-- A thread that has exchanged a token with the first claims for one with the second. -/
def hasDerived (claims claims' : Json)
    (t : Thread Call Realm RealmOperation Failure (Option ExchangedToken)) : Bool :=
  match t.call, t.rest with
  | .exchangeToken input _ _, .done (some response) =>
    input.requestedTokenType != some idTokenType && input.subjectTokenType == accessTokenType &&
      response.accessToken == claims' &&
      match input.verification with
      | .ok found => found == claims
      | .error _ => false
  | _, _ => false

theorem derives_of_hasDerived {pool : DelegationPool} {claims claims' : Json}
    (h : pool.threads.any (hasDerived claims claims') = true) : Derives pool claims claims' := by
  obtain ⟨t, ht, hderived⟩ := List.any_eq_true.mp h
  unfold hasDerived at hderived
  split at hderived
  · rename_i input client issuer response hcall hdone
    obtain ⟨hcolumns, hclaims⟩ := Bool.and_eq_true_iff.mp hderived
    simp only [Bool.and_eq_true, bne_iff_ne, beq_iff_eq] at hcolumns
    obtain ⟨⟨hrequested, hsubject⟩, htoken⟩ := hcolumns
    have hverification : input.verification = .ok claims := by
      split at hclaims
      · rename_i found hfound
        rw [hfound, eq_of_beq hclaims]
      · cases hclaims
    refine ⟨input, client, issuer, response,
      ⟨t, ht, hcall, hrequested, hsubject, hverification, ?_⟩,
      htoken⟩
    rw [hdone]
    rfl
  · cases hderived

theorem delegation_attenuated : ∃ (pool : DelegationPool) (claims' : Json),
    Relation.TransGen (Derives pool) claims claims' ∧
      ∃ i : AccessTokenInput, claims' = i.payload ∧ Attenuates claims i := by
  have hrun : (run (
      Move.alone 0 (.exchangeToken exchange TokenExchange.Sample.credentials "iss") 26 ++
      Move.alone 1 (.exchangeToken exchangeAgain TokenExchange.Sample.credentials "iss") 26)).any
      (fun pool => pool.threads.any (hasDerived claims issued.payload) &&
        pool.threads.any (hasDerived issued.payload
          ({ issued with jti := "id-2" } : AccessTokenInput).payload)) = true := by
    decide +kernel
  obtain ⟨pool, hpool, hcheck⟩ := reachable_of_run hrun
  obtain ⟨hfirst, hsecond⟩ := Bool.and_eq_true_iff.mp hcheck
  have hchain := (Relation.TransGen.single (derives_of_hasDerived hfirst)).tail
    (derives_of_hasDerived hsecond)
  obtain ⟨i, htoken, hattenuates, _⟩ := delegation_attenuates hpool hchain
  exact ⟨pool, _, hchain, i, htoken, hattenuates⟩

end Sample

end FlareAuth.Delegation
