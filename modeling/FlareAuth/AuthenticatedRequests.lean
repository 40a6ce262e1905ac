import FlareAuth.Authentication

/-!
# What a request is authenticated by

Through any number of steps a request has one principal at most, and the header of the request tells
of which kind it is. With an `Authorization` header it never acts with the session, the scopes it
is authorized for are those of the token, and a token that is bound to a key is good for nothing
without a proof.
-/

namespace FlareAuth.Authentication

open Concurrent Procedure Delegation Access

section Active

structure AgentActive (d : Directory) (identity : AgentIdentity)
    (binding : AgentBinding) : Prop where
  stored : identity ∈ d.identities
  status : identity.status = .active
  live : identity.deletedAt = none
  boundStored : binding ∈ d.bindings
  own : binding.agentIdentityId = identity.id
  bound : binding.status = .active

theorem agentActive_of_findActiveBinding {d : Directory} {protocolAgentId : Id}
    {active : AgentIdentity × AgentBinding}
    (h : d.findActiveBinding protocolAgentId = some active) :
    AgentActive d active.1 active.2 ∧ active.2.protocolAgentId = protocolAgentId := by
  have hmem := List.mem_of_mem_head? h
  obtain ⟨b, hb, hactive⟩ := List.mem_filterMap.mp hmem
  by_cases hmatch : b.protocolAgentId = protocolAgentId ∧ b.status = .active
  · rw [if_pos hmatch, Option.map_eq_some_iff] at hactive
    obtain ⟨i, hi, rfl⟩ := hactive
    have hfound := List.find?_some hi
    simp only [decide_eq_true_eq] at hfound
    obtain ⟨hid, hstatus, hlive⟩ := hfound
    exact ⟨⟨List.mem_of_find?_eq_some hi, hstatus, hlive, hb, hid.symm, hmatch.2⟩, hmatch.1⟩
  · rw [if_neg hmatch] at hactive
    cases hactive

theorem agentActive_of_seen {seen : List Store} {identity : AgentIdentity} {binding : AgentBinding}
    (h : AgentSeen seen identity binding) :
    ∃ s ∈ seen, AgentActive s.directory identity binding := by
  obtain ⟨s, hs, hfound, hstatus, hmem, hlive⟩ := h
  have hidentity := List.find?_some hfound
  simp only [decide_eq_true_eq] at hidentity
  obtain ⟨hb, hown⟩ := List.mem_filter.mp hmem
  unfold AgentBinding.live at hlive
  simp only [Bool.and_eq_true, decide_eq_true_eq] at hlive
  exact ⟨s, hs, List.mem_of_find?_eq_some hfound, hstatus, hidentity.2, hb, by simpa using hown,
    hlive.1⟩

/-- The Agent of a token of any kind was found active. -/
theorem sees_resolveTokenAgent (token : PresentedToken) (payload : Json)
    (binding : Option AgentBindingClaim) (issuer clientId subject : String) :
    (resolveTokenAgent token payload binding issuer clientId subject).Sees fun active seen =>
      ∃ s ∈ seen, AgentActive s.directory active.1 active.2 := by
  have hfind : ∀ {d : Directory} {id hostId iss sub : String} {active},
      d.findTokenAgent id hostId iss sub = some active → AgentActive d active.1 active.2 :=
    fun h => (agentActive_of_findActiveBinding (Option.filter_eq_some_iff.mp h).1).1
  unfold resolveTokenAgent
  split
  · refine (sees_orThrow _ _).bind fun hostId _ _ =>
      (sees_look _).bind fun found first ⟨s, hfound, hfirst⟩ => ?_
    refine (sees_orThrow _ _).mono fun active seen ⟨hactive, _⟩ => ?_
    have hagent := hfind (hfound.symm.trans hactive)
    exact ⟨s, by simp [hfirst], hagent⟩
  · split
    · exact (sees_resolveResourceTokenAgent _ _ _ _ _).mono
        fun active seen h => agentActive_of_seen h.1
    · refine (sees_orThrow _ _).bind fun binding _ _ =>
        (sees_look _).bind fun found first ⟨s, hfound, hfirst⟩ => ?_
      refine (sees_orThrow _ _).mono fun active seen ⟨hactive, _⟩ => ?_
      have hagent := hfind (hfound.symm.trans hactive)
      exact ⟨s, by simp [hfirst], hagent⟩

/-- An Agent that a request is authenticated as comes from the verified token of the request. -/
theorem sees_authenticateOAuthAgent (verifier : TokenVerifier) (oauth : OAuthOptions)
    (request : AgentTokenRequest) : (authenticateOAuthAgent verifier oauth request).Sees
      fun found seen => ∀ agent, found = some agent → ∃ token payload,
        request.token = some token ∧ verifier token oauth.issuer oauth.audience = some payload ∧
        ReadsBack payload request agent ∧
        ∃ s ∈ seen, AgentActive s.directory agent.identity agent.binding := by
  unfold authenticateOAuthAgent
  cases htoken : request.token with
  | none => exact sees_done fun agent h => nomatch h
  | some token =>
    dsimp only
    cases hverified : verifier token oauth.issuer oauth.audience with
    | none => exact trivial
    | some payload =>
      dsimp only
      cases hclient : nonempty (payload.stringField "client_id") with
      | none => exact sees_done fun agent h => nomatch h
      | some clientId =>
        dsimp only
        split
        · refine Sees.map ((sees_authenticateAgentPayload (P := fun active seen =>
            ∃ s ∈ seen, AgentActive s.directory active.1 active.2) ?_ ?_).mono ?_)
          · rintro active seen seen' hsubset ⟨s, hs, hactive⟩
            exact ⟨s, hsubset hs, hactive⟩
          · exact fun binding subject => sees_resolveTokenAgent _ _ _ _ _ _
          · rintro agent seen ⟨hactive, hreads⟩ agent' hagent
            cases hagent
            exact ⟨token, payload, rfl, hverified, hreads, hactive⟩
        · exact sees_done fun agent h => nomatch h

end Active

section Credentials

/-- What the token of an Application says, and what was found of it. -/
structure Represents (payload : Json) (seen : List Realm) (application : AuthenticatedApplication)
    (user : Option Id) : Prop where
  unbound : payload.field "cnf" = none
  client : payload.stringField "client_id" = some application.clientId
  foreign : application.clientId ≠ realmrootCliClientId
  enabled : ∃ r ∈ seen, ∃ a, r.site.findByClientId application.clientId = some a ∧
    a.disabled = false ∧ a.id = application.id ∧
    a.ownerOrganizationId = application.ownerOrganizationId
  scopes : application.scopes = scopeClaim payload
  itself : user = none → payload.stringField "sub" = some application.id
  user : ∀ id, user = some id → payload.stringField "sub" = some id ∧ id ≠ application.id ∧
    ∃ r ∈ seen, ∃ u ∈ r.site.access.directory.users, u.id = id ∧ u.banned = false

variable (verifier : TokenVerifier) (request : AuthRequest) (passes : List AuthnOptions)
  (seen : List Realm)

inductive Credential : PrincipalContext → Prop
  | nobody {session : Option AuthSession} (header : request.authorization = none) :
      Credential ⟨session, none, none, none⟩
  | session {session : AuthSession} {id : Id} (header : request.authorization = none)
      (found : request.session = .ok (some session)) (user : session.user = some id) :
      Credential ⟨some session, some id, none, none⟩
  | assertion {session : AgentSession} {agent : OAuthAgent} (header : request.authorization = none)
      (found : request.agentSession = some (.ok (some session)))
      (active : ∃ r ∈ seen, AgentActive r.site.access.directory agent.identity agent.binding)
      (own : agent.binding.protocolAgentId = session.agentId ∧
        agent.binding.hostId = session.hostId)
      (powerless : agent.scopes = [] ∧ agent.authority = none) : Credential (agentPrincipal agent)
  | dpop {token : PresentedToken} {oauth : OAuthOptions} {payload : Json} {agent : OAuthAgent}
      (header : request.authorization = some (.dpop token))
      (offered : ∃ o ∈ passes, o.oauth = some oauth)
      (verified : verifier token oauth.issuer oauth.audience = some payload)
      (active : ∃ r ∈ seen, AgentActive r.site.access.directory agent.identity agent.binding)
      (reads : ReadsBack payload request.agentTokenRequest agent) :
      Credential (agentPrincipal agent)
  | bearer {token : PresentedToken} {oauth : OAuthOptions} {payload : Json}
      {application : AuthenticatedApplication × Option Id}
      (header : request.authorization = some (.bearer token))
      (offered : ∃ o ∈ passes, o.oauth = some oauth)
      (verified : verifier token oauth.issuer oauth.audience = some payload)
      (represents : Represents payload seen application.1 application.2) :
      Credential (applicationPrincipal application)

variable {verifier request passes seen} {p : PrincipalContext}

theorem Represents.mono {payload : Json} {seen' : List Realm}
    {application : AuthenticatedApplication} {user : Option Id}
    (h : Represents payload seen application user) (hseen : seen ⊆ seen') :
    Represents payload seen' application user where
  unbound := h.unbound
  client := h.client
  foreign := h.foreign
  enabled := by
    obtain ⟨r, hr, hfound⟩ := h.enabled
    exact ⟨r, hseen hr, hfound⟩
  scopes := h.scopes
  itself := h.itself
  user id hid := by
    obtain ⟨hsubject, hne, r, hr, hfound⟩ := h.user id hid
    exact ⟨hsubject, hne, r, hseen hr, hfound⟩

theorem Credential.mono {seen' : List Realm} (h : Credential verifier request passes seen p)
    (hseen : seen ⊆ seen') : Credential verifier request passes seen' p := by
  cases h with
  | nobody header => exact .nobody header
  | session header found user => exact .session header found user
  | assertion header found active own powerless =>
    obtain ⟨r, hr, hactive⟩ := active
    exact .assertion header found ⟨r, hseen hr, hactive⟩ own powerless
  | dpop header offered verified active reads =>
    obtain ⟨r, hr, hactive⟩ := active
    exact .dpop header offered verified ⟨r, hseen hr, hactive⟩ reads
  | bearer header offered verified represents =>
    exact .bearer header offered verified (represents.mono hseen)

theorem Credential.eq_agentPrincipal {agent : OAuthAgent}
    (h : Credential verifier request passes seen p) (hagent : p.agent = some agent) :
    p = agentPrincipal agent := by
  cases h with
  | nobody header => cases hagent
  | session header found user => cases hagent
  | assertion header found active own powerless =>
    cases hagent
    rfl
  | dpop header offered verified active reads =>
    cases hagent
    rfl
  | bearer header offered verified represents => cases hagent

theorem Credential.eq_applicationPrincipal {application : AuthenticatedApplication}
    (h : Credential verifier request passes seen p)
    (happlication : p.application = some application) :
    p = applicationPrincipal (application, p.user) := by
  cases h with
  | nobody header => cases happlication
  | session header found user => cases happlication
  | assertion header found active own powerless => cases happlication
  | dpop header offered verified active reads => cases happlication
  | bearer header offered verified represents =>
    cases happlication
    rfl

/-- Without an `Authorization` header a principal with a user is that of the session. -/
theorem Credential.of_user (h : Credential verifier request passes seen p)
    (header : request.authorization = none) (huser : p.user.isSome = true) :
    p = ⟨p.session, p.user, none, none⟩ := by
  cases h with
  | nobody header => cases huser
  | session header found user => rfl
  | assertion header found active own powerless => cases huser
  | dpop hdpop offered verified active reads =>
    rw [header] at hdpop
    cases hdpop
  | bearer hbearer offered verified represents =>
    rw [header] at hbearer
    cases hbearer

end Credentials

section Applications

variable {verifier : TokenVerifier} {request : AuthRequest}

theorem nonempty_eq_some {value : Option String} {text : String} (h : nonempty value = some text) :
    value = some text := (Option.filter_eq_some_iff.mp h).1

theorem sees_representedUser (application : TokenExchange.Application) (subject : Id) :
    (representedUser application subject).Sees fun user seen =>
      (user = none → subject = application.id) ∧ ∀ u, user = some u → u.id = subject ∧
        subject ≠ application.id ∧ ∃ r ∈ seen, u ∈ r.site.access.directory.users := by
  unfold representedUser
  by_cases hsubject : subject = application.id
  · rw [if_pos hsubject]
    exact sees_done ⟨fun _ => hsubject, fun u h => nomatch h⟩
  · rw [if_neg hsubject]
    have huser : (getUser subject).Sees fun user seen => user.id = subject ∧
        ∃ r ∈ seen, user ∈ r.site.access.directory.users := by
      refine (sees_lookup _).bind fun found first ⟨r, hfound, hfirst⟩ => ?_
      refine (sees_orThrow _ _).mono fun user seen ⟨huser, _⟩ => ?_
      rw [hfound] at huser
      exact ⟨by simpa using List.find?_some huser, r, by simp [hfirst],
        List.mem_of_find?_eq_some huser⟩
    refine Sees.map ((huser.tryCatch fun e earlier => ?_).mono ?_)
    · split <;> exact trivial
    · rintro user seen ⟨hid, r, hr, hmem⟩
      refine ⟨fun h => (nomatch h), fun u hu => ?_⟩
      cases hu
      exact ⟨hid, hsubject, r, hr, hmem⟩

theorem clientId_of_found {site : TokenExchange.Site} {clientId : String}
    {a : TokenExchange.Application} (h : site.findByClientId clientId = some a) :
    a.oauthClientId = clientId := by
  obtain ⟨c, hc, ha⟩ := Option.bind_eq_some_iff.mp h
  have hclient : c.clientId = clientId := by simpa using List.find?_some hc
  have hown : a.oauthClientId = c.clientId := by simpa using List.find?_some ha
  exact hown.trans hclient

theorem sees_authenticateApplicationPayload (payload : Json) :
    (authenticateApplicationPayload payload).Sees fun found seen => ∀ application,
      found = some application → Represents payload seen application.1 application.2 := by
  unfold authenticateApplicationPayload
  dsimp only
  by_cases hcli : nonempty (payload.stringField "client_id") = some realmrootCliClientId
  · rw [if_pos hcli]
    exact sees_done fun application h => nomatch h
  rw [if_neg hcli]
  refine (sees_orThrow _ _).bind fun subject _ ⟨hsubject, _⟩ => ?_
  refine (sees_orThrow _ _).bind fun clientId _ ⟨hclient, _⟩ => ?_
  refine (sees_require _ _).bind fun _ _ ⟨hunbound, _⟩ => ?_
  refine (sees_onSite (sees_query _ _)).bind fun found first ⟨s, hfound, hfirst⟩ => ?_
  refine (sees_orThrow _ _).bind fun application _ ⟨happlication, _⟩ => ?_
  refine (sees_representedUser _ _).bind fun user second ⟨hitself, huser⟩ => ?_
  refine (sees_require _ _).bind fun _ _ ⟨hbanned, _⟩ => sees_done ?_
  intro represented hrepresented
  cases hrepresented
  obtain ⟨happlication, henabled⟩ := Option.filter_eq_some_iff.mp happlication
  rw [hfound] at happlication
  have hown := clientId_of_found happlication
  obtain ⟨r, rfl, hr⟩ : ∃ r : Realm, r.site = s ∧ r ∈ first := by
    have hmem : s ∈ first.map (·.site) := by simp [hfirst]
    obtain ⟨r, hr, hsite⟩ := List.mem_map.mp hmem
    exact ⟨r, hsite, hr⟩
  refine ⟨by simpa using hunbound, ?_, ?_,
    ⟨r, by simp [hr], application, ?_, ?_, rfl, rfl⟩, rfl, ?_, ?_⟩
  · rw [nonempty_eq_some hclient, hown]
  · intro hsame
    rw [hown] at hsame
    exact hcli (hsame ▸ hclient)
  · rw [hown]
    exact happlication
  · simpa using henabled
  · intro hnone
    rw [nonempty_eq_some hsubject, hitself (by simpa using hnone)]
  · intro id hid
    obtain ⟨u, rfl, rfl⟩ := Option.map_eq_some_iff.mp hid
    obtain ⟨husubject, hne, r', hr', hmem⟩ := huser u rfl
    refine ⟨?_, husubject ▸ hne, r', by simp [hr'], u, hmem, rfl, by simpa using hbanned⟩
    rw [nonempty_eq_some hsubject, husubject]

theorem sees_authenticateOAuthApplication (verifier : TokenVerifier) (oauth : OAuthOptions)
    (request : AuthRequest) : (authenticateOAuthApplication verifier oauth request).Sees
      fun found seen => ∀ application, found = some application → ∃ token payload,
        request.authorization = some (.bearer token) ∧
        verifier token oauth.issuer oauth.audience = some payload ∧
        Represents payload seen application.1 application.2 := by
  unfold authenticateOAuthApplication
  split
  · rename_i token hheader
    cases hverified : verifier token oauth.issuer oauth.audience with
    | none => exact trivial
    | some payload =>
      exact (sees_authenticateApplicationPayload payload).mono
        fun found seen h application hfound =>
        ⟨token, payload, hheader, hverified, h application hfound⟩
  · exact sees_done fun application h => nomatch h

end Applications

section Steps

variable {verifier : TokenVerifier} {request : AuthRequest} {passes : List AuthnOptions}
  {options : AuthnOptions} {oauth : OAuthOptions} {current : Option PrincipalContext}
  {earlier : List Realm}

theorem exists_of_access {seen : List Realm} {s : Store}
    (h : s ∈ (seen.map (·.site)).map (·.access)) : ∃ r ∈ seen, r.site.access = s := by
  obtain ⟨site, hsite, rfl⟩ := List.mem_map.mp h
  obtain ⟨r, hr, rfl⟩ := List.mem_map.mp hsite
  exact ⟨r, hr, rfl⟩

theorem header_of_token {token : PresentedToken}
    (h : request.agentTokenRequest.token = some token) :
    request.authorization = some (.dpop token) := by
  unfold AuthRequest.agentTokenRequest at h
  dsimp only at h
  split at h
  · rename_i token' hheader
    obtain rfl := Option.some.inj h
    exact hheader
  · cases h

theorem sees_agentOfToken (hoptions : options ∈ passes) (hoauth : options.oauth = some oauth)
    (hcurrent : ∀ p, current = some p → Credential verifier request passes earlier p) :
    (agentOfToken verifier request oauth current).Sees fun found seen => ∀ agent,
      found = some agent → Credential verifier request passes (seen ++ earlier)
        (agentPrincipal agent) := by
  unfold agentOfToken
  split
  · rename_i agent hagent
    refine sees_done fun agent' hfound => ?_
    cases hfound
    obtain ⟨p, hp, hagent⟩ := Option.bind_eq_some_iff.mp hagent
    have hcredential := hcurrent p hp
    exact hcredential.eq_agentPrincipal hagent ▸ hcredential
  · refine (sees_onSite (sees_authenticateOAuthAgent _ _ _).lift).mono
      fun found seen h agent hfound => ?_
    obtain ⟨token, payload, htoken, hverified, hreads, s, hs, hactive⟩ := h agent hfound
    obtain ⟨r, hr, rfl⟩ := exists_of_access hs
    exact .dpop (header_of_token htoken) ⟨options, hoptions, hoauth⟩ hverified
      ⟨r, List.mem_append_left _ hr, hactive⟩ hreads

theorem sees_applicationOfToken (hoptions : options ∈ passes) (hoauth : options.oauth = some oauth)
    (hcurrent : ∀ p, current = some p → Credential verifier request passes earlier p) :
    (applicationOfToken verifier request oauth current).Sees fun found seen => ∀ application,
      found = some application → Credential verifier request passes (seen ++ earlier)
        (applicationPrincipal application) := by
  unfold applicationOfToken
  split
  · rename_i application happlication
    refine sees_done fun application' hfound => ?_
    cases hfound
    obtain ⟨p, hp, happlication⟩ := Option.bind_eq_some_iff.mp happlication
    obtain ⟨a, ha, rfl⟩ := Option.map_eq_some_iff.mp happlication
    have hcredential := hcurrent p hp
    exact hcredential.eq_applicationPrincipal ha ▸ hcredential
  · refine (sees_authenticateOAuthApplication _ _ _).mono fun found seen h application hfound => ?_
    obtain ⟨token, payload, hheader, hverified, hrepresents⟩ := h application hfound
    exact .bearer hheader ⟨options, hoptions, hoauth⟩ hverified
      (hrepresents.mono (List.subset_append_left _ _))

theorem sees_authenticateAgent (header : request.authorization = none) :
    (authenticateAgent request).Sees fun found seen => ∀ agent, found = some agent →
      Credential verifier request passes seen (agentPrincipal agent) := by
  unfold authenticateAgent
  cases hsession : request.agentSession with
  | none => exact sees_done fun agent h => nomatch h
  | some answer =>
    refine (sees_ofExcept _).bind fun session _ ⟨hanswer, _⟩ => ?_
    subst hanswer
    cases session with
    | none => exact sees_done fun agent h => nomatch h
    | some session =>
      refine (sees_lookup _).bind fun found first ⟨r, hfound, hfirst⟩ => ?_
      refine (sees_orThrow _ _).bind fun active _ ⟨hactive, _⟩ => sees_done fun agent h => ?_
      cases h
      obtain ⟨hactive, hhost⟩ := Option.filter_eq_some_iff.mp hactive
      rw [hfound] at hactive
      obtain ⟨hagent, hown⟩ := agentActive_of_findActiveBinding hactive
      exact .assertion header hsession ⟨r, by simp [hfirst], hagent⟩
        ⟨hown, by simpa using hhost⟩ ⟨rfl, rfl⟩

theorem sees_authnExplicit (authorization : Authorization) (hoptions : options ∈ passes)
    (hoauth : options.oauth = some oauth)
    (hcurrent : ∀ p, current = some p → Credential verifier request passes earlier p) :
    (authnExplicit verifier request options oauth authorization current).Sees fun p seen =>
      Credential verifier request passes (seen ++ earlier) p := by
  unfold authnExplicit
  cases authorization with
  | dpop token =>
    refine (sees_require _ _).bind fun _ _ _ => ?_
    refine (sees_agentOfToken hoptions hoauth hcurrent).bind fun found first hfound => ?_
    refine Sees.map ((sees_orThrow _ _).mono fun agent seen ⟨hagent, hseen⟩ => ?_)
    exact (hfound agent hagent).mono fun r hr => by
      simp only [List.mem_append] at hr ⊢
      tauto
  | bearer token =>
    refine (sees_require _ _).bind fun _ _ _ => ?_
    refine (sees_applicationOfToken hoptions hoauth hcurrent).bind fun found first hfound => ?_
    refine Sees.map ((sees_orThrow _ _).mono fun application seen ⟨happlication, hseen⟩ => ?_)
    exact (hfound application happlication).mono fun r hr => by
      simp only [List.mem_append] at hr ⊢
      tauto
  | other => exact trivial

theorem sees_agentOfRequest (header : request.authorization = none) (hoptions : options ∈ passes)
    (hcurrent : ∀ p, current = some p → Credential verifier request passes earlier p) :
    (agentOfRequest verifier request options current).Sees fun found seen => ∀ agent,
      found = some agent → Credential verifier request passes (seen ++ earlier)
        (agentPrincipal agent) := by
  unfold agentOfRequest
  split
  · split
    · exact sees_agentOfToken hoptions ‹_› hcurrent
    · split
      · rename_i agent hagent
        refine sees_done fun agent' hfound => ?_
        cases hfound
        obtain ⟨p, hp, hagent⟩ := Option.bind_eq_some_iff.mp hagent
        have hcredential := hcurrent p hp
        exact hcredential.eq_agentPrincipal hagent ▸ hcredential
      · exact (sees_authenticateAgent header).mono fun found seen h agent hfound =>
          (h agent hfound).mono (List.subset_append_left _ _)
  · exact sees_done fun agent h => nomatch h

theorem sees_applicationOfRequest (hoptions : options ∈ passes)
    (hcurrent : ∀ p, current = some p → Credential verifier request passes earlier p) :
    (applicationOfRequest verifier request options current).Sees fun found seen => ∀ application,
      found = some application → Credential verifier request passes (seen ++ earlier)
        (applicationPrincipal application) := by
  unfold applicationOfRequest
  split
  · split
    · exact sees_applicationOfToken hoptions ‹_› hcurrent
    · exact sees_done fun application h => nomatch h
  · exact sees_done fun application h => nomatch h

theorem sees_currentSession (header : request.authorization = none)
    (hcurrent : ∀ p, current = some p → Credential verifier request passes earlier p) :
    (currentSession request current).Sees fun session seen => seen = [] ∧
      ((currentUser session current).isSome = true → Credential verifier request passes earlier
        ⟨session, currentUser session current, none, none⟩) := by
  unfold currentSession currentUser
  cases current with
  | some p =>
    refine sees_done ⟨rfl, fun h => ?_⟩
    have hcredential := hcurrent p rfl
    exact hcredential.of_user header h ▸ hcredential
  | none =>
    refine (sees_ofExcept _).mono fun session seen ⟨hsession, hseen⟩ => ⟨hseen, fun h => ?_⟩
    obtain ⟨id, hid⟩ := Option.isSome_iff_exists.mp h
    obtain ⟨found, rfl, hfound⟩ := Option.bind_eq_some_iff.mp hid
    dsimp only [Option.bind_some]
    rw [hfound]
    exact .session header hsession hfound

theorem sees_authnImplicit (header : request.authorization = none) (hoptions : options ∈ passes)
    (hcurrent : ∀ p, current = some p → Credential verifier request passes earlier p) :
    (authnImplicit verifier request options current).Sees fun p seen =>
      Credential verifier request passes (seen ++ earlier) p := by
  unfold authnImplicit
  refine (sees_currentSession header hcurrent).bind fun session first ⟨hfirst, huser⟩ => ?_
  subst hfirst
  dsimp only
  split
  · exact sees_done ((huser ‹_›).mono (by simp))
  · refine (sees_agentOfRequest header hoptions hcurrent).bind fun agent second hagent => ?_
    cases agent with
    | some agent => exact sees_done ((hagent agent rfl).mono (by simp))
    | none =>
      refine (sees_applicationOfRequest hoptions hcurrent).bind
        fun application third happlication => ?_
      cases application with
      | some application => exact sees_done ((happlication application rfl).mono (by simp))
      | none => exact (sees_require _ _).bind fun _ _ _ => sees_done (.nobody header)

theorem sees_authn (hoptions : options ∈ passes)
    (hcurrent : ∀ p, current = some p → Credential verifier request passes earlier p) :
    (authn verifier request options current).Sees fun result seen => ∀ p, result = some p →
      Credential verifier request passes (seen ++ earlier) p := by
  unfold authn
  split
  · refine Sees.map ((sees_authnExplicit _ hoptions ‹_› hcurrent).mono fun p seen h p' hp => ?_)
    cases hp
    exact h
  · exact sees_done fun p hp => hcurrent p hp
  · refine Sees.map ((sees_authnImplicit ‹_› hoptions hcurrent).mono fun p seen h p' hp => ?_)
    cases hp
    exact h

/-- The credential is kept from step to step. -/
theorem sees_authnStack {stack : List AuthnOptions} (hstack : stack ⊆ passes)
    (hcurrent : ∀ p, current = some p → Credential verifier request passes earlier p) :
    (authnStack verifier request stack current).Sees fun result seen => ∀ p, result = some p →
      Credential verifier request passes (seen ++ earlier) p := by
  induction stack generalizing current earlier with
  | nil => exact sees_done hcurrent
  | cons options rest ih =>
    refine (sees_authn (hstack List.mem_cons_self) hcurrent).bind fun next first hnext => ?_
    have hrest := ih (fun o ho => hstack (List.mem_cons_of_mem _ ho)) hnext
    refine hrest.mono fun result seen h p hp => ?_
    rw [List.append_assoc]
    exact h p hp

theorem sees_credential : (authnStack verifier request passes none).Sees fun result seen =>
    ∀ p, result = some p → Credential verifier request passes seen p := by
  have hnone : ∀ p, (none : Option PrincipalContext) = some p →
      Credential verifier request passes [] p := by
    intro p h
    cases h
  refine (sees_authnStack (List.Subset.refl passes) hnone).mono fun result seen h p hp => ?_
  have hcredential := h p hp
  rw [List.append_nil] at hcredential
  exact hcredential

end Steps

section Authority

variable {d : Directory} {target : AuthorizationTenant} {scope : String}

/-- Who acts by an Application passes with scopes of the Application alone. -/
theorem scope_of_application {p : Principal} {application : ApplicationPrincipal}
    (happlication : p.application = some application) (h : Authorized d p target scope) :
    scope ∈ application.scopes := by
  cases huser : p.user with
  | some userId =>
    obtain ⟨platform, _, _, hheld | hbeside⟩ := (authorized_user_iff huser).mp h
    · exact hheld.2.2.2 application happlication
    · cases target with
      | user id => exact hbeside.2.2 application happlication
      | organization id => exact hbeside.2.2.2.2 application happlication
  | none =>
    obtain ⟨c, hc, _, hscope⟩ := authorized_iff.mp h
    rw [resolveAuthorizationContext, huser, happlication] at hc
    cases hc
    exact hscope

theorem scope_of_agent {p : Principal} {agent : AgentPrincipal} (huser : p.user = none)
    (happlication : p.application = none) (hagent : p.agent = some agent)
    (h : Authorized d p target scope) : scope ∈ agent.scopes := by
  obtain ⟨c, hc, _, hscope⟩ := authorized_iff.mp h
  rw [resolveAuthorizationContext, huser, happlication, hagent] at hc
  cases hplatform : d.requirePlatformOrganization with
  | error e =>
    rw [hplatform] at hc
    cases hc
  | ok platform =>
    rw [hplatform] at hc
    cases hc
    exact hscope

theorem not_authorized_nobody {p : Principal} (huser : p.user = none)
    (happlication : p.application = none) (hagent : p.agent = none) :
    ¬Authorized d p target scope := by
  intro h
  obtain ⟨c, hc, _⟩ := authorized_iff.mp h
  rw [resolveAuthorizationContext, huser, happlication, hagent] at hc
  cases hc

end Authority

section Requests

variable {verifier : TokenVerifier} {request : AuthRequest} {passes : List AuthnOptions}
  {seen : List Realm} {p : PrincipalContext} {d : Directory} {target : AuthorizationTenant}
  {scope : String}

/-- Without a header only the user of the session is authorized for anything. -/
theorem Credential.session_of_authorized (h : Credential verifier request passes seen p)
    (header : request.authorization = none) (hauthorized : Authorized d p.principal target scope) :
    ∃ session id, request.session = .ok (some session) ∧ session.user = some id ∧
      p = ⟨some session, some id, none, none⟩ := by
  cases h with
  | nobody _ => exact absurd hauthorized (not_authorized_nobody rfl rfl rfl)
  | session _ found user => exact ⟨_, _, found, user, rfl⟩
  | assertion _ found active own powerless =>
    have hscope := scope_of_agent rfl rfl rfl hauthorized
    dsimp only at hscope
    rw [powerless.1] at hscope
    cases hscope
  | dpop hdpop offered verified active reads =>
    rw [header] at hdpop
    cases hdpop
  | bearer hbearer offered verified represents =>
    rw [header] at hbearer
    cases hbearer

/-- With a header the scopes are those of its token. -/
theorem Credential.scope_of_authorized (h : Credential verifier request passes seen p)
    {authorization : Authorization} (header : request.authorization = some authorization)
    (hauthorized : Authorized d p.principal target scope) :
    p.session = none ∧ ∃ token oauth payload,
      (authorization = .dpop token ∨ authorization = .bearer token) ∧
      (∃ o ∈ passes, o.oauth = some oauth) ∧
      verifier token oauth.issuer oauth.audience = some payload ∧ scope ∈ scopeClaim payload := by
  cases h with
  | nobody hnone =>
    rw [header] at hnone
    cases hnone
  | session hnone found user =>
    rw [header] at hnone
    cases hnone
  | assertion hnone found active own powerless =>
    rw [header] at hnone
    cases hnone
  | dpop hdpop offered verified active reads =>
    rw [header] at hdpop
    have hscope := scope_of_agent rfl rfl rfl hauthorized
    dsimp only at hscope
    rw [reads.scopes] at hscope
    exact ⟨rfl, _, _, _, .inl (Option.some.inj hdpop), offered, verified, hscope⟩
  | bearer hbearer offered verified represents =>
    rw [header] at hbearer
    have hscope := scope_of_application rfl hauthorized
    dsimp only at hscope
    rw [represents.scopes] at hscope
    exact ⟨rfl, _, _, _, .inr (Option.some.inj hbearer), offered, verified, hscope⟩

theorem field_of_objectStringClaim {payload : Json} {name member text : String}
    (h : objectStringClaim payload name member = some text) : payload.field name ≠ none := by
  intro hnone
  rw [objectStringClaim, hnone] at h
  cases h

/-- A token with a key is no token of an Application. -/
theorem sees_authnStack_bearer {token : PresentedToken} {oauth : OAuthOptions} {payload : Json}
    (header : request.authorization = some (.bearer token))
    (hoffered : ∀ o ∈ passes, ∀ other, o.oauth = some other → other = oauth)
    (hverified : verifier token oauth.issuer oauth.audience = some payload)
    (hbound : payload.field "cnf" ≠ none) :
    (authnStack verifier request passes none).Sees fun result _ => result = none := by
  refine sees_credential.mono fun result seen h => ?_
  cases result with
  | none => rfl
  | some p =>
    cases h p rfl with
    | nobody hnone =>
      rw [header] at hnone
      cases hnone
    | session hnone found user =>
      rw [header] at hnone
      cases hnone
    | assertion hnone found active own powerless =>
      rw [header] at hnone
      cases hnone
    | dpop hdpop offered verified active reads =>
      rw [header] at hdpop
      cases hdpop
    | bearer hbearer offered verified represents =>
      rw [header] at hbearer
      cases hbearer
      obtain ⟨o, ho, hoauth⟩ := offered
      rw [hoffered o ho _ hoauth, hverified] at verified
      cases verified
      exact absurd represents.unbound hbound

end Requests

section Law

variable (verifier : TokenVerifier)

/-- **Theorem.** Whatever steps a request passes, it is authenticated by one credential. Without an
`Authorization` header only the user of the session is authorized for anything. With one, the
session is put aside and every scope is a scope of the verified token; and a token that was taken
with a proof of its key is no authentication when it comes as a Bearer token. -/
theorem request_authorized (request : AuthRequest) (passes : List AuthnOptions) :
    (authnStack verifier request passes none).Sees fun result seen => ∀ p, result = some p →
      Credential verifier request passes seen p ∧
      (∀ d target scope, Authorized d p.principal target scope →
        (request.authorization = none → ∃ session id, request.session = .ok (some session) ∧
          session.user = some id ∧ p = ⟨some session, some id, none, none⟩) ∧
        ∀ authorization, request.authorization = some authorization →
          p.session = none ∧ ∃ token oauth payload,
            (authorization = .dpop token ∨ authorization = .bearer token) ∧
            (∃ o ∈ passes, o.oauth = some oauth) ∧
            verifier token oauth.issuer oauth.audience = some payload ∧
            scope ∈ scopeClaim payload) ∧
      ∀ token, request.authorization = some (.dpop token) →
        ∃ oauth, (∃ o ∈ passes, o.oauth = some oauth) ∧ ∀ (stolen : AuthRequest) others,
          stolen.authorization = some (.bearer token) →
          (∀ o ∈ others, ∀ other, o.oauth = some other → other = oauth) →
          (authnStack verifier stolen others none).Sees fun result _ => result = none := by
  refine sees_credential.mono fun result seen h p hp => ?_
  have hcredential := h p hp
  refine ⟨hcredential, fun d target scope hauthorized => ⟨fun header =>
    hcredential.session_of_authorized header hauthorized, fun authorization header =>
    hcredential.scope_of_authorized header hauthorized⟩, fun token header => ?_⟩
  cases hcredential with
  | nobody hnone =>
    rw [header] at hnone
    cases hnone
  | session hnone found user =>
    rw [header] at hnone
    cases hnone
  | assertion hnone found active own powerless =>
    rw [header] at hnone
    cases hnone
  | bearer hbearer offered verified represents =>
    rw [header] at hbearer
    cases hbearer
  | dpop hdpop offered verified active reads =>
    rw [header] at hdpop
    cases hdpop
    obtain ⟨jkt, hjkt, _⟩ := reads.confirmed
    exact ⟨_, offered, fun stolen others hstolen hothers =>
      sees_authnStack_bearer hstolen hothers verified (field_of_objectStringClaim hjkt)⟩

end Law

end FlareAuth.Authentication
