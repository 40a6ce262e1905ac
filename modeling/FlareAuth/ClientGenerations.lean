import FlareAuth.ConnectorProgram

/-!
# What a client generation names

A generation stands for one registration of a client as long as no write lands
on a client which it did not read. A configuration starts at generation 1 again,
an update of a registration compares nothing, and a rotation compares only the
number.
-/

namespace FlareAuth

namespace Connector

open Connectors

def Names (c : Connector) (generation : ℕ) (clientId : String) : Prop :=
  (c.resourceClientGeneration = generation ∧ c.resourceClientId = some clientId) ∨
    ∃ r ∈ c.resourceRetiredClientGenerations, r.generation = generation ∧ r.clientId = clientId

def Stores (c : Connector) (clientId clientSecret : String) : Prop :=
  (c.resourceClientId = some clientId ∧ c.resourceClientSecret = some clientSecret) ∨
    ∃ r ∈ c.resourceRetiredClientGenerations, r.clientId = clientId ∧ r.clientSecret = clientSecret

/-- `Registered` says which secrets a client was ever given. -/
structure WellFormed (Registered : String → String → Prop) (c : Connector) : Prop where
  retired : ∀ r ∈ c.resourceRetiredClientGenerations, r.generation < c.resourceClientGeneration
  secret : c.resourceClientId = none → c.resourceClientSecret = none
  stores : ∀ clientId clientSecret, c.Stores clientId clientSecret →
    Registered clientId clientSecret

/-- Everything that an earlier row named is still named, and a row at the same generation had
retired the same clients. -/
structure Continues (c earlier : Connector) : Prop where
  names : ∀ generation clientId, earlier.Names generation clientId → c.Names generation clientId
  retired : earlier.resourceClientId ≠ none →
    earlier.resourceClientGeneration = c.resourceClientGeneration →
    earlier.resourceRetiredClientGenerations = c.resourceRetiredClientGenerations

structure SameClients (c d : Connector) : Prop where
  generation : d.resourceClientGeneration = c.resourceClientGeneration
  clientId : d.resourceClientId = c.resourceClientId
  retired : d.resourceRetiredClientGenerations = c.resourceRetiredClientGenerations

variable {Registered : String → String → Prop} {c d : Connector} {generation : ℕ}
  {clientId clientSecret : String} {client : ResolvedClient}

theorem SameClients.names (h : SameClients c d) :
    d.Names generation clientId ↔ c.Names generation clientId := by
  rw [Names, Names, h.generation, h.clientId, h.retired]

theorem names_present (h : c.resourceClientId = some clientId) :
    c.Names c.resourceClientGeneration clientId := .inl ⟨rfl, h⟩

theorem sameClients_reregistered (c : Connector) (client : OAuthClient) (metadata : OidcMetadata)
    (now : ℕ) : SameClients c (c.reregistered client metadata now) := ⟨rfl, rfl, rfl⟩

theorem sameClients_patched (c : Connector) {input : UpdateConnector} (oidc : Option OidcConnector)
    (now : ℕ) (h : input.resourceAuthorization = none) :
    SameClients c (c.patched input oidc now) := by
  rw [patched, h]
  exact ⟨rfl, rfl, rfl⟩

/-- A resolution asks for the present generation or for a retired one. -/
theorem resolved_generation {requested : Option ℕ} {authorization : ResolvedExternalAuthorization}
    (h : resolveExternalAuthorization (some c) requested = some authorization) :
    authorization.clientGeneration = requested.getD c.resourceClientGeneration ∧
      (authorization.clientGeneration = c.resourceClientGeneration ∨
        c.resourceRetiredClientGenerations.any
          (fun r => r.generation = authorization.clientGeneration) = true) := by
  simp only [resolveExternalAuthorization, Option.bind_eq_bind, Option.bind_eq_some_iff,
    Option.pure_def, Option.some.injEq] at h
  obtain ⟨_, rfl, _, _, _, _, _, _, _, _, _, _, _, hguard, rfl⟩ := h
  refine ⟨rfl, ?_⟩
  by_contra hnot
  rw [guard, if_neg hnot] at hguard
  cases hguard

/-- The client of a resolution is one that the row names and stores. -/
theorem of_clientAt (h : c.clientAt generation = some client)
    (hgeneration : generation = c.resourceClientGeneration ∨
      c.resourceRetiredClientGenerations.any (fun r => r.generation = generation) = true) :
    client.clientGeneration = generation ∧ c.Names generation client.clientId ∧
      c.Stores client.clientId client.clientSecret := by
  unfold clientAt at h
  cases hretired : c.resourceRetiredClientGenerations.find?
    (fun r => r.generation = generation) with
  | some r =>
    rw [hretired] at h
    cases h
    have hr : r ∈ c.resourceRetiredClientGenerations := List.mem_of_find?_eq_some hretired
    have hgeneration : r.generation = generation := by simpa using List.find?_some hretired
    exact ⟨rfl, .inr ⟨r, hr, hgeneration, rfl⟩, .inr ⟨r, hr, rfl, rfl⟩⟩
  | none =>
    rw [hretired] at h
    have hnone := List.find?_eq_none.mp hretired
    have hpresent : generation = c.resourceClientGeneration := by
      rcases hgeneration with hpresent | hany
      · exact hpresent
      · obtain ⟨r, hr, hgeneration⟩ := List.any_eq_true.mp hany
        exact absurd hgeneration (hnone r hr)
    dsimp only at h
    split at h
    · rename_i x k hx hk
      cases h
      exact ⟨rfl, .inl ⟨hpresent.symm, hx⟩, .inl ⟨hx, hk⟩⟩
    · cases h

theorem of_activeClient {requested : Option ℕ} (h : c.activeClient requested = some client) :
    (∀ generation, requested = some generation → client.clientGeneration = generation) ∧
      c.Names client.clientGeneration client.clientId ∧
      c.Stores client.clientId client.clientSecret := by
  rw [activeClient, Option.bind_eq_some_iff] at h
  obtain ⟨authorization, hfilter, hclient⟩ := h
  obtain ⟨hresolved, _⟩ := Option.filter_eq_some_iff.mp hfilter
  obtain ⟨hrequested, hgeneration⟩ := resolved_generation hresolved
  obtain ⟨hsame, hnames, hstores⟩ := of_clientAt hclient hgeneration
  refine ⟨fun generation hgen => ?_, by rwa [hsame], hstores⟩
  rw [hsame, hrequested, hgen]
  rfl

end Connector

namespace Connectors

open Concurrent Procedure Relational

variable {Registered : String → String → Prop} {s t u : Store} {past : List Store} {id : Id}

def Store.Names (s : Store) (connectorId : Id) (generation : ℕ) (clientId : String) : Prop :=
  ∃ c, s.findConnector connectorId = some c ∧ c.Names generation clientId

structure Servers.Honest (Registered : String → String → Prop) (servers : Servers) : Prop where
  registers : ∀ endpoint scopes client, servers.registerClient endpoint scopes = .ok client →
    Registered client.clientId client.clientSecret
  updates : ∀ uri accessToken clientId scopes body registered clientSecret,
    servers.updateClient uri accessToken clientId scopes = .ok (.ok body) →
    present body.clientId = some registered → present body.clientSecret = some clientSecret →
    Registered registered clientSecret

/-- What a row of a connector may be, given all that was stored for it before. -/
structure Fits (Registered : String → String → Prop) (history : List Store) (id : Id)
    (c : Connector) : Prop where
  wellFormed : c.WellFormed Registered
  one : ∀ g x y, c.Names g x → c.Names g y → x = y
  earlier : ∀ u ∈ history, ∀ d, u.findConnector id = some d → ∀ g x y, d.Names g x →
    c.Names g y → x = y
  continues : c.resourceClientId ≠ none → ∀ u ∈ history, ∀ d, u.findConnector id = some d →
    c.Continues d

structure Consistent (Registered : String → String → Prop) (s : Store)
    (past : List Store) : Prop where
  honest : ∀ u ∈ s :: past, u.servers.Honest Registered
  wellFormed : ∀ u ∈ s :: past, ∀ id c, u.findConnector id = some c → c.WellFormed Registered
  one : ∀ u ∈ s :: past, ∀ v ∈ s :: past, ∀ id g x y, u.Names id g x → v.Names id g y → x = y
  continues : ∀ id c, s.findConnector id = some c → c.resourceClientId ≠ none →
    ∀ u ∈ s :: past, ∀ d, u.findConnector id = some d → c.Continues d

theorem Consistent.fits (h : Consistent Registered s past) {c : Connector}
    (hc : s.findConnector id = some c) : Fits Registered (s :: past) id c where
  wellFormed := h.wellFormed s List.mem_cons_self id c hc
  one g x y hx hy := h.one s List.mem_cons_self s List.mem_cons_self id g x y
    ⟨c, hc, hx⟩ ⟨c, hc, hy⟩
  earlier u hu d hd g x y hx hy := h.one u hu s List.mem_cons_self id g x y ⟨d, hd, hx⟩ ⟨c, hc, hy⟩
  continues := h.continues id c hc

/-- A row with the clients of one that fits does so too. -/
theorem Fits.of_same {history : List Store} {c d : Connector} (h : Fits Registered history id c)
    (hsame : c.SameClients d) (hwellFormed : d.WellFormed Registered) :
    Fits Registered history id d where
  wellFormed := hwellFormed
  one g x y hx hy := h.one g x y (hsame.names.mp hx) (hsame.names.mp hy)
  earlier u hu e he g x y hx hy := h.earlier u hu e he g x y hx (hsame.names.mp hy)
  continues hclient u hu e he := by
    rw [hsame.clientId] at hclient
    have hcontinues := h.continues hclient u hu e he
    refine ⟨fun g x hx => hsame.names.mpr (hcontinues.names g x hx), fun hne hgeneration => ?_⟩
    rw [hsame.retired]
    exact hcontinues.retired hne (hgeneration.trans hsame.generation)

/-- The next store is consistent if each of its rows fits. -/
theorem Consistent.next (h : Consistent Registered s past) (hhonest : t.servers.Honest Registered)
    (hfits : ∀ id c, t.findConnector id = some c → Fits Registered (s :: past) id c) :
    Consistent Registered t (s :: past) where
  honest u hu := by
    rcases List.mem_cons.mp hu with rfl | hu
    · exact hhonest
    · exact h.honest u hu
  wellFormed u hu id c hc := by
    rcases List.mem_cons.mp hu with rfl | hu
    · exact (hfits id c hc).wellFormed
    · exact h.wellFormed u hu id c hc
  one u hu v hv id g x y hx hy := by
    obtain ⟨c, hc, hnames⟩ := hx
    obtain ⟨d, hd, hnames'⟩ := hy
    rcases List.mem_cons.mp hu with rfl | hbefore
    · rcases List.mem_cons.mp hv with rfl | hv
      · obtain rfl : c = d := Option.some.inj (hc.symm.trans hd)
        exact (hfits id c hc).one g x y hnames hnames'
      · exact ((hfits id c hc).earlier v hv d hd g y x hnames' hnames).symm
    · rcases List.mem_cons.mp hv with rfl | hv
      · exact (hfits id d hd).earlier u hbefore c hc g x y hnames hnames'
      · exact h.one u hbefore v hv id g x y ⟨c, hc, hnames⟩ ⟨d, hd, hnames'⟩
  continues id c hc hclient u hu d hd := by
    rcases List.mem_cons.mp hu with rfl | hu
    · obtain rfl : c = d := Option.some.inj (hc.symm.trans hd)
      exact ⟨fun _ _ hx => hx, fun _ _ => rfl⟩
    · exact (hfits id c hc).continues hclient u hu d hd

/-- A row after an update of the selected connectors. -/
theorem findConnector_setConnectors {p : Connector → Bool} {f : Connector → Connector}
    {c' : Connector}
    (hf : ∀ c, (f c).id = c.id) (h : (s.setConnectors p f).findConnector id = some c') :
    ∃ c, s.findConnector id = some c ∧ c' = if p c then f c else c := by
  obtain ⟨c, hc, hrow⟩ := mem_updateWhere.mp (mem_of_lookup h)
  have hkey : c.id = id := by
    have hid := key_of_lookup h
    rw [← hrow] at hid
    split at hid
    · rwa [hf] at hid
    · exact hid
  obtain ⟨d, hd⟩ : ∃ d, s.findConnector c.id = some d := lookup_isSome_of_mem hc
  rw [hkey] at hd
  refine ⟨d, hd, ?_⟩
  have hfound := lookup_updateWhere Connector.id (p := p) hf hd
  exact Option.some.inj (h.symm.trans hfound)

theorem Consistent.setConnectors (h : Consistent Registered s past) {p : Connector → Bool}
    {f : Connector → Connector} (hf : ∀ c, (f c).id = c.id)
    (hfits : ∀ id c, s.findConnector id = some c → p c = true →
      Fits Registered (s :: past) id (f c)) :
    Consistent Registered (s.setConnectors p f) (s :: past) := by
  refine h.next (h.honest s List.mem_cons_self) fun id c' hc' => ?_
  obtain ⟨c, hc, rfl⟩ := findConnector_setConnectors hf hc'
  by_cases hp : p c = true
  · rw [if_pos hp]
    exact hfits id c hc hp
  · rw [if_neg hp]
    exact h.fits hc

/-- An operation that leaves the connectors alone. -/
theorem Consistent.of_same (h : Consistent Registered s past)
    (hconnectors : t.connectors = s.connectors)
    (hservers : t.servers = s.servers) : Consistent Registered t (s :: past) := by
  apply h.next
  · rw [hservers]
    exact h.honest s List.mem_cons_self
  · intro id c hc
    rw [Store.findConnector, hconnectors] at hc
    exact h.fits hc

def Operation.Computed (history : List Store) : Operation → Prop
  | .configureConnector id input oidc _ => ∃ u ∈ history, ∃ v ∈ history, ∃ c,
    u.findConnector id = some c ∧ prepareResourceAuthorization v.servers.toAuthorizationServers c
      input.resourceAuthorization = .ok oidc
  | .updateClient id client _ _ => ∃ u ∈ history, ∃ v ∈ history,
      ∃ c uri accessToken clientSecret scopes body,
    u.findConnector id = some c ∧ c.resourceClientId = some client.clientId ∧
      c.resourceClientSecret = some clientSecret ∧
      v.servers.updateClient uri accessToken client.clientId scopes = .ok (.ok body) ∧
      registrationResponse body scopes clientSecret uri accessToken = .ok client
  | .rotateClient id expectedGeneration retiredBefore retired client _ _ =>
    ∃ u ∈ history, ∃ v ∈ history, ∃ c endpoint scopes, u.findConnector id = some c ∧
      c.resourceClientGeneration = expectedGeneration ∧
      c.resourceRetiredClientGenerations = retiredBefore ∧
      retired.generation = expectedGeneration ∧ c.resourceClientId = some retired.clientId ∧
      c.resourceClientSecret = some retired.clientSecret ∧
      v.servers.registerClient endpoint scopes = .ok client
  | _ => True

/-- A write finds the client that it was computed from, and a configuration with a client finds a
connector that never had another one, nor a second generation. An administrator gives a client its
own secret, as servers do. -/
def Operation.FindsClient (Registered : String → String → Prop) (s : Store) (past : List Store) :
    Operation → Prop
  | .configureConnector id input (some oidc) _ => input.resourceAuthorization.isSome = true →
    (∀ u ∈ s :: past, ∀ g x, u.Names id g x → g = 1 ∧ x = oidc.client.clientId) ∧
      ((input.resourceAuthorization.join.bind (·.clientSecret)).isSome = true →
        Registered oidc.client.clientId oidc.client.clientSecret)
  | .updateClient id client _ _ => ∀ c, s.findConnector id = some c →
    c.resourceClientId = some client.clientId
  | .rotateClient id expectedGeneration _ retired _ _ _ => ∀ c, s.findConnector id = some c →
    c.resourceClientGeneration = expectedGeneration → c.resourceClientId = some retired.clientId
  | .outside servers => servers.Honest Registered
  | _ => True

section Step

variable {c d : Connector} {history : List Store}

theorem except_map_eq_ok {α β : Type} {x : Except Failure α} {f : α → β} {b : β}
    (h : x.map f = .ok b) : ∃ a, x = .ok a ∧ f a = b := by
  cases x with
  | error e => cases h
  | ok a => exact ⟨a, rfl, Except.ok.inj h⟩

/-- The client of a prepared connector is registered, or has the credentials of the input. -/
theorem prepareOidcConnector_client {servers : AuthorizationServers}
    {input : ResourceAuthorizationInput} {oidc : OidcConnector}
    (h : prepareOidcConnector servers input = .ok oidc) :
    manualClient input = .ok oidc.client ∨
      ∃ endpoint scopes, servers.registerClient endpoint scopes = .ok oidc.client := by
  unfold prepareOidcConnector at h
  split at h
  · cases h
  · obtain ⟨metadata, _, h⟩ := except_bind_eq_ok h
    split at h
    · obtain ⟨client, hclient, h⟩ := except_bind_eq_ok h
      cases h
      exact .inl hclient
    · obtain ⟨client, hclient, h⟩ := except_bind_eq_ok h
      cases h
      unfold dynamicClient at hclient
      split at hclient
      · exact .inr ⟨_, _, hclient⟩
      · cases hclient

/-- A prepared client was registered, was given with its secret, or has the stored secret. -/
theorem prepared {servers : AuthorizationServers}
    {input : Option (Option ResourceAuthorizationInput)} {oidc : Option OidcConnector}
    (h : prepareResourceAuthorization servers c input = .ok oidc) :
    (input.join = none ∧ oidc = none) ∨ ∃ ra o, input.join = some ra ∧ oidc = some o ∧
      ((∃ endpoint scopes, servers.registerClient endpoint scopes = .ok o.client) ∨
        ra.clientSecret.isSome = true ∨ c.resourceClientSecret = some o.client.clientSecret) := by
  unfold prepareResourceAuthorization at h
  split at h
  · rename_i ra hinput
    obtain ⟨o, ho, rfl⟩ := except_map_eq_ok h
    refine .inr ⟨ra, o, hinput, rfl, ?_⟩
    rcases prepareOidcConnector_client ho with hmanual | hregistered
    · right
      unfold manualClient at hmanual
      split at hmanual
      · rename_i x k _ hk
        have hclient := Except.ok.inj hmanual
        rw [← hclient]
        cases hsecret : ra.clientSecret with
        | some k' => exact .inl rfl
        | none =>
          have hstored : (c.completedInput ra).clientSecret = c.resourceClientSecret := by
            rw [Connector.completedInput, hsecret]
            rfl
          rw [hstored] at hk
          exact .inr (Option.filter_eq_some_iff.mp hk).1
      · cases hmanual
    · exact .inl hregistered
  · rename_i hinput
    cases h
    exact .inl ⟨hinput, rfl⟩

/-- The body of an update gives the client a secret of its own or keeps the stored one. -/
theorem registrationResponse_registered {servers : Servers} (hhonest : servers.Honest Registered)
    {uri accessToken clientSecret : String} {scopes : List String} {body : RegistrationBody}
    {client : OAuthClient}
    (hanswer : servers.updateClient uri accessToken client.clientId scopes = .ok (.ok body))
    (hresponse : registrationResponse body scopes clientSecret uri accessToken = .ok client)
    (hstored : Registered client.clientId clientSecret) :
    Registered client.clientId client.clientSecret := by
  unfold registrationResponse at hresponse
  dsimp only at hresponse
  split at hresponse
  · cases hresponse
  · obtain ⟨clientId, hclientId, hresponse⟩ := except_bind_eq_ok hresponse
    have hclient := Except.ok.inj hresponse
    have hbody : present body.clientId = some clientId := by
      unfold requiredClientId at hclientId
      split at hclientId
      · rename_i x hx
        rw [hx, Except.ok.inj hclientId]
      · cases hclientId
    cases hsecret : present body.clientSecret with
    | some k =>
      have hregistered := hhonest.updates _ _ _ _ _ _ _ hanswer hbody hsecret
      rw [← hclient]
      simpa only [hsecret, Option.getD_some] using hregistered
    | none =>
      rw [← hclient] at hstored ⊢
      simpa only [hsecret, Option.getD_none] using hstored

/-- A row with the same clients and the same present secret. -/
theorem wellFormed_of_same (h : c.WellFormed Registered) (hsame : c.SameClients d)
    (hsecret : d.resourceClientSecret = c.resourceClientSecret) : d.WellFormed Registered where
  retired := by
    rw [hsame.retired, hsame.generation]
    exact h.retired
  secret := by
    rw [hsame.clientId, hsecret]
    exact h.secret
  stores x k hstores := by
    rw [Connector.Stores, hsame.clientId, hsame.retired, hsecret] at hstores
    exact h.stores x k hstores

theorem fits_reregistered {client : OAuthClient} {metadata : OidcMetadata} {now : ℕ}
    (h : Fits Registered history id c) (hclient : c.resourceClientId = some client.clientId)
    (hregistered : Registered client.clientId client.clientSecret) :
    Fits Registered history id (c.reregistered client metadata now) := by
  refine h.of_same (c.sameClients_reregistered client metadata now) ⟨h.wellFormed.retired, ?_, ?_⟩
  · intro hnone
    rw [(c.sameClients_reregistered client metadata now).clientId, hclient] at hnone
    cases hnone
  · intro x k hstores
    rcases hstores with ⟨hx, hk⟩ | hretired
    · rw [(c.sameClients_reregistered client metadata now).clientId, hclient] at hx
      obtain rfl := Option.some.inj hx
      obtain rfl := Option.some.inj hk
      exact hregistered
    · exact h.wellFormed.stores x k (.inr hretired)

/-- A rotation of the row that was read adds a name for the next generation. -/
theorem names_rotated {client : OAuthClient} {metadata : OidcMetadata} {now : ℕ}
    {retired : ClientGeneration} (hgeneration : retired.generation = c.resourceClientGeneration)
    (hclient : c.resourceClientId = some retired.clientId) {g : ℕ} {x : String} :
    (c.rotated client (c.resourceClientGeneration + 1)
      (c.resourceRetiredClientGenerations ++ [retired]) metadata now).Names g x ↔
      (c.resourceClientGeneration + 1 = g ∧ client.clientId = x) ∨ c.Names g x := by
  constructor
  · rintro (⟨hg, hx⟩ | ⟨r, hr, hg, hx⟩)
    · exact .inl ⟨hg, Option.some.inj hx⟩
    · rcases List.mem_append.mp hr with hr | hr
      · exact .inr (.inr ⟨r, hr, hg, hx⟩)
      · obtain rfl := List.mem_singleton.mp hr
        exact .inr (.inl ⟨hgeneration.symm.trans hg, by rw [hclient, hx]⟩)
  · rintro (⟨hg, hx⟩ | ⟨hg, hx⟩ | ⟨r, hr, hg, hx⟩)
    · exact .inl ⟨hg, congrArg some hx⟩
    · rw [hclient] at hx
      exact .inr ⟨retired, List.mem_append_right _ List.mem_cons_self, hgeneration.trans hg,
        Option.some.inj hx⟩
    · exact .inr ⟨r, List.mem_append_left _ hr, hg, hx⟩

theorem generation_le (h : c.WellFormed Registered) {g : ℕ} {x : String} (hnames : c.Names g x) :
    g ≤ c.resourceClientGeneration := by
  rcases hnames with ⟨hg, _⟩ | ⟨r, hr, hg, _⟩
  · omega
  · have hlt := h.retired r hr
    omega

theorem fits_rotated {client : OAuthClient} {metadata : OidcMetadata} {now : ℕ}
    {retired : ClientGeneration} (h : Fits Registered history id c)
    (hgeneration : retired.generation = c.resourceClientGeneration)
    (hclient : c.resourceClientId = some retired.clientId)
    (hretired : Registered retired.clientId retired.clientSecret)
    (hregistered : Registered client.clientId client.clientSecret) :
    Fits Registered history id (c.rotated client (c.resourceClientGeneration + 1)
      (c.resourceRetiredClientGenerations ++ [retired]) metadata now) := by
  have hpresent : c.resourceClientId ≠ none := by
    rw [hclient]
    nofun
  -- what was ever named is at most as old as the row, so the next generation is a new name
  have hbefore : ∀ u ∈ history, ∀ d, u.findConnector id = some d → ∀ g x, d.Names g x →
      c.Names g x ∧ g ≤ c.resourceClientGeneration := by
    intro u hu d hd g x hx
    have hnames := (h.continues hpresent u hu d hd).names g x hx
    exact ⟨hnames, generation_le h.wellFormed hnames⟩
  constructor
  · constructor
    · intro r hr
      change r.generation < c.resourceClientGeneration + 1
      rcases List.mem_append.mp hr with hr | hr
      · have hlt := h.wellFormed.retired r hr
        omega
      · obtain rfl := List.mem_singleton.mp hr
        omega
    · nofun
    · rintro x k (⟨hx, hk⟩ | ⟨r, hr, rfl, rfl⟩)
      · obtain rfl := Option.some.inj hx
        obtain rfl := Option.some.inj hk
        exact hregistered
      · rcases List.mem_append.mp hr with hr | hr
        · exact h.wellFormed.stores _ _ (.inr ⟨r, hr, rfl, rfl⟩)
        · obtain rfl := List.mem_singleton.mp hr
          exact hretired
  · intro g x y hx hy
    rw [names_rotated hgeneration hclient] at hx hy
    rcases hx with ⟨hg, rfl⟩ | hx
    · rcases hy with ⟨_, rfl⟩ | hy
      · rfl
      · have hle := generation_le h.wellFormed hy
        omega
    · rcases hy with ⟨hg, rfl⟩ | hy
      · have hle := generation_le h.wellFormed hx
        omega
      · exact h.one g x y hx hy
  · intro u hu d hd g x y hx hy
    rw [names_rotated hgeneration hclient] at hy
    obtain ⟨hnames, hle⟩ := hbefore u hu d hd g x hx
    rcases hy with ⟨hg, rfl⟩ | hy
    · omega
    · exact h.one g x y hnames hy
  · intro _ u hu d hd
    refine ⟨fun g x hx => ?_, fun hne hsame => ?_⟩
    · rw [names_rotated hgeneration hclient]
      exact .inr (hbefore u hu d hd g x hx).1
    · obtain ⟨y, hy⟩ := Option.ne_none_iff_exists'.mp hne
      have hle := (hbefore u hu d hd _ y (Connector.names_present hy)).2
      change d.resourceClientGeneration = c.resourceClientGeneration + 1 at hsame
      omega

/-- A configuration with a client, on a connector that never had another client or generation. -/
theorem fits_configured {input : Option ResourceAuthorizationInput} {oidc : OidcConnector}
    (hwellFormed : ∀ u ∈ history, ∀ d, u.findConnector id = some d → d.WellFormed Registered)
    (hregistered : Registered oidc.client.clientId oidc.client.clientSecret)
    (hfirst : ∀ u ∈ history, ∀ g x, u.Names id g x → g = 1 ∧ x = oidc.client.clientId) :
    Fits Registered history id (c.configured input (some oidc)) := by
  have hnames : ∀ g x, (c.configured input (some oidc)).Names g x ↔
      1 = g ∧ oidc.client.clientId = x := by
    intro g x
    constructor
    · rintro (⟨hg, hx⟩ | ⟨r, hr, _⟩)
      · exact ⟨hg, Option.some.inj hx⟩
      · cases hr
    · rintro ⟨hg, hx⟩
      exact .inl ⟨hg, congrArg some hx⟩
  constructor
  · constructor
    · intro r hr
      cases hr
    · nofun
    · rintro x k (⟨hx, hk⟩ | ⟨r, hr, _⟩)
      · obtain rfl := Option.some.inj hx
        obtain rfl := Option.some.inj hk
        exact hregistered
      · cases hr
  · intro g x y hx hy
    exact ((hnames g x).mp hx).2.symm.trans ((hnames g y).mp hy).2
  · intro u hu d hd g x y hx hy
    exact (hfirst u hu g x ⟨d, hd, hx⟩).2.trans ((hnames g y).mp hy).2
  · intro _ u hu d hd
    refine ⟨fun g x hx => ?_, fun hne _ => ?_⟩
    · obtain ⟨rfl, rfl⟩ := hfirst u hu g x ⟨d, hd, hx⟩
      exact (hnames 1 _).mpr ⟨rfl, rfl⟩
    · -- a retired client would be older than generation 1
      obtain ⟨y, hy⟩ := Option.ne_none_iff_exists'.mp hne
      have hpresent := (hfirst u hu _ y ⟨d, hd, Connector.names_present hy⟩).1
      apply List.eq_nil_iff_forall_not_mem.mpr
      intro r hr
      have hlt := (hwellFormed u hu d hd).retired r hr
      have hretired := (hfirst u hu r.generation r.clientId ⟨d, hd, .inr ⟨r, hr, rfl, rfl⟩⟩).1
      omega

/-- A configuration without a client names nothing. -/
theorem fits_unconfigured {input : Option ResourceAuthorizationInput} :
    Fits Registered history id (c.configured input none) := by
  have hnames : ∀ g x, ¬(c.configured input none).Names g x := by
    rintro g x (⟨_, hx⟩ | ⟨r, hr, _⟩)
    · cases hx
    · cases hr
  constructor
  · constructor
    · intro r hr
      cases hr
    · exact fun _ => rfl
    · rintro x k (⟨hx, _⟩ | ⟨r, hr, _⟩)
      · cases hx
      · cases hr
  · exact fun g x y hx _ => absurd hx (hnames g x)
  · exact fun u _ d _ g x y _ hy => absurd hy (hnames g y)
  · exact fun hne => absurd rfl hne

/-- The secret of a configuration is the client's, if the administrator's is. -/
theorem registered_of_prepared (h : Consistent Registered s past) {u v : Store} (hu : u ∈ s :: past)
    (hv : v ∈ s :: past) {input : UpdateConnector} {oidc : OidcConnector}
    (hc : u.findConnector id = some c)
    (hprepared : prepareResourceAuthorization v.servers.toAuthorizationServers c
      input.resourceAuthorization = .ok (some oidc))
    (hfirst : ∀ u ∈ s :: past, ∀ g x, u.Names id g x → g = 1 ∧ x = oidc.client.clientId)
    (hgiven : (input.resourceAuthorization.join.bind (·.clientSecret)).isSome = true →
      Registered oidc.client.clientId oidc.client.clientSecret) :
    Registered oidc.client.clientId oidc.client.clientSecret := by
  rcases prepared hprepared with ⟨_, hnone⟩ | ⟨ra, o, hinput, ho, hclient⟩
  · cases hnone
  · obtain rfl := Option.some.inj ho
    rcases hclient with ⟨endpoint, scopes, hregistered⟩ | hsecret | hstored
    · exact (h.honest v hv).registers endpoint scopes _ hregistered
    · rw [hinput] at hgiven
      exact hgiven hsecret
    · -- the stored secret belongs to the stored client, which is the one that is configured
      have hwellFormed := h.wellFormed u hu id c hc
      cases hclientId : c.resourceClientId with
      | none =>
        rw [hwellFormed.secret hclientId] at hstored
        cases hstored
      | some x =>
        obtain rfl := (hfirst u hu _ x ⟨c, hc, Connector.names_present hclientId⟩).2
        exact hwellFormed.stores _ _ (.inl ⟨hclientId, hstored⟩)

theorem Operation.Computed.mono {history' : List Store} {op : Operation} (h : op.Computed history)
    (hsub : ∀ u ∈ history, u ∈ history') : op.Computed history' := by
  cases op with
  | configureConnector | updateClient | rotateClient =>
    obtain ⟨u, hu, v, hv, h⟩ := h
    exact ⟨u, hsub u hu, v, hsub v hv, h⟩
  | _ => exact trivial

/-- A step that finds the clients it was computed from keeps the generations apart. -/
theorem consistent_perform {op : Operation} (h : Consistent Registered s past)
    (hcomputed : op.Computed (s :: past)) (hfinds : op.FindsClient Registered s past) :
    Consistent Registered (op.perform s) (s :: past) := by
  cases op with
  | outside servers => exact h.next hfinds fun id c hc => h.fits hc
  | configureConnector id input oidc now =>
    apply h.setConnectors (fun c => c.patched_id input oidc now)
    intro id' c hc hselected
    obtain rfl : c.id = id := by simpa using hselected
    obtain rfl : c.id = id' := key_of_lookup hc
    cases hinput : input.resourceAuthorization with
    | none =>
      have hsame := c.sameClients_patched oidc now hinput
      apply (h.fits hc).of_same hsame
      apply wellFormed_of_same (h.fits hc).wellFormed hsame
      rw [Connector.patched, hinput, Connector.described]
    | some ra =>
      have hpatched : c.patched input oidc now = (c.described input now).configured ra oidc := by
        rw [Connector.patched, hinput]
      rw [hpatched]
      cases oidc with
      | none => exact fits_unconfigured
      | some oidc =>
        obtain ⟨u, hu, v, hv, d, hd, hprepared⟩ := hcomputed
        obtain ⟨hfirst, hgiven⟩ := hfinds (by rw [hinput]; rfl)
        exact fits_configured (fun u hu => h.wellFormed u hu c.id)
          (registered_of_prepared h hu hv hd hprepared hfirst hgiven) hfirst
  | refreshMetadata id metadata now =>
    refine h.setConnectors (f := (·.withEndpoints metadata now)) (fun _ => rfl) ?_
    intro id' c hc _
    have hsame : c.SameClients (c.withEndpoints metadata now) := ⟨rfl, rfl, rfl⟩
    exact (h.fits hc).of_same hsame (wellFormed_of_same (h.fits hc).wellFormed hsame rfl)
  | updateClient id client metadata now =>
    refine h.setConnectors (f := (·.reregistered client metadata now)) (fun _ => rfl) ?_
    intro id' c hc hselected
    obtain rfl : c.id = id := by simpa using hselected
    obtain rfl : c.id = id' := key_of_lookup hc
    obtain ⟨u, hu, v, hv, d, uri, accessToken, clientSecret, scopes, body, hd, hclient, hsecret,
      hanswer, hresponse⟩ := hcomputed
    have hstored := (h.wellFormed u hu c.id d hd).stores _ _ (.inl ⟨hclient, hsecret⟩)
    exact fits_reregistered (h.fits hc) (hfinds c hc)
      (registrationResponse_registered (h.honest v hv) hanswer hresponse hstored)
  | rotateClient id expectedGeneration retiredBefore retired client metadata now =>
    refine h.setConnectors (f := (·.rotated client (expectedGeneration + 1)
      (retiredBefore ++ [retired]) metadata now)) (fun _ => rfl) ?_
    intro id' c hc hselected
    obtain ⟨rfl, rfl⟩ : c.id = id ∧ c.resourceClientGeneration = expectedGeneration := by
      simpa using hselected
    obtain rfl : c.id = id' := key_of_lookup hc
    obtain ⟨u, hu, v, hv, d, endpoint, scopes, hd, hgeneration, rfl, hretired, hclient, hsecret,
      hregistered⟩ := hcomputed
    have hpresent : c.resourceClientId = some retired.clientId := hfinds c hc rfl
    have hcontinues := (h.fits hc).continues (by rw [hpresent]; nofun) u hu d hd
    rw [hcontinues.retired (by rw [hclient]; nofun) hgeneration]
    exact fits_rotated (h.fits hc) hretired hpresent
      ((h.wellFormed u hu c.id d hd).stores _ _ (.inl ⟨hclient, hsecret⟩))
      ((h.honest v hv).registers endpoint scopes client hregistered)
  | storeCredential credential =>
    have hsame : ((Repository.upsertProviderCredential credential).settle s).connectors =
        s.connectors ∧ ((Repository.upsertProviderCredential credential).settle s).servers =
          s.servers := by
      unfold Repository.upsertProviderCredential
      by_cases hany : (s.credentials.any fun c => c.resourceId == credential.resourceId &&
          c.owner == credential.owner) = true
      · simp only [Batch.settle, if_pos hany, and_self]
      · simp only [Batch.settle, if_neg hany, and_self]
    exact h.of_same hsame.1 hsame.2
  | _ => exact h.of_same rfl rfl

end Step

end Connectors

end FlareAuth
