import FlareAuth.ClientGenerations

/-!
# The client behind a pinned generation

What a call writes was computed from what it read, and a request to a server
names the client that the connector resolved for a generation. In a run whose
writes find the clients which they were computed from, that is the client which
the generation stood for when it was pinned.
-/

namespace FlareAuth.Connectors

open Concurrent Procedure Relational

def Resolved (history : List Store) (resourceId : Id) (client : ResolvedClient) : Prop :=
  ∃ u ∈ history, ∃ v ∈ history, ∃ r connectorId c requested, u.findResource resourceId = some r ∧
    r.connectorId = some connectorId ∧ v.findConnector connectorId = some c ∧
    c.activeClient requested = some client

/-- The request authorizes with the client what is pinned to the generation. -/
inductive Operation.Uses : Operation → Id → ℕ → ResolvedClient → Prop where
  | authorize (resourceId : Id) (client : ResolvedClient) :
    Uses (.authorize resourceId client) resourceId client.clientGeneration client
  | exchangeCode (intent : ConnectionIntent) (client : ResolvedClient) (code : String) :
    Uses (.exchangeCode intent client code) intent.resourceId intent.clientGeneration client
  | refresh (credential : Credential) (client : ResolvedClient) :
    Uses (.exchangeRefreshToken credential client) credential.resourceId credential.clientGeneration
      client

inductive Operation.Pins : Operation → Id → ℕ → Prop where
  | intent (intent : ConnectionIntent) :
    Pins (.createConnectionIntent intent) intent.resourceId intent.clientGeneration
  | credential (credential : Credential) :
    Pins (.storeCredential credential) credential.resourceId credential.clientGeneration

abbrev ConnectorLog := Log Store Operation

def stores (log : ConnectorLog) : List Store := log.map (·.before)

theorem mem_stores {log : ConnectorLog} {e : Event Store Operation} (h : e ∈ log) :
    e.before ∈ stores log := List.mem_map_of_mem h

/-- Writes are computed from what the call read, requests use what it resolved, and what it pins was
authorized before. -/
structure Guarantee (log : ConnectorLog) (s : Store) (op : Operation) : Prop where
  computed : op.Computed (stores log)
  uses : ∀ resourceId generation client, op.Uses resourceId generation client →
    client.clientGeneration = generation ∧ Resolved (stores log) resourceId client
  pins : ∀ resourceId generation, op.Pins resourceId generation →
    ∃ d ∈ log, ∃ client, d.operation.Uses resourceId generation client

/-- Operations that write no client, name none and pin nothing. -/
def Operation.IsQuiet : Operation → Prop
  | .configureConnector _ _ _ _ | .updateClient _ _ _ _ | .rotateClient _ _ _ _ _ _ _ => False
  | .authorize _ _ | .exchangeCode _ _ _ | .exchangeRefreshToken _ _ => False
  | .createConnectionIntent _ | .storeCredential _ => False
  | _ => True

theorem guarantee_of_quiet (log : ConnectorLog) (s : Store) (op : Operation) (h : op.IsQuiet) :
    Guarantee log s op := by
  constructor
  · cases op <;> trivial
  · rintro _ _ _ (_ | _ | _) <;> exact h.elim
  · rintro _ _ (_ | _) <;> exact h.elim

section Contracts

variable {α β : Type} {log : ConnectorLog} {P : ConnectorLog → Except Failure β → Prop}
  {f : α → Connecting β}

theorem obeys_look_bind {answer : Store → α}
    (h : ∀ s, (f (answer s)).Obeys Guarantee P (⟨.read, s⟩ :: log)) :
    (look answer >>= f).Obeys Guarantee P log := fun s =>
  ⟨guarantee_of_quiet log s .read trivial, h s⟩

theorem obeys_call_bind {answer : Servers → Except Failure α} (herror : ∀ log e, P log (.error e))
    (h : ∀ s a, answer s.servers = .ok a → (f a).Obeys Guarantee P (⟨.read, s⟩ :: log)) :
    (call answer >>= f).Obeys Guarantee P log := by
  rw [call, bind_assoc]
  exact obeys_look_bind fun s => obeys_ofExcept_bind (fun e _ => herror _ e) fun a ha => h s a ha

theorem obeys_commit_bind {op : Operation} {batch : StoreBatch α}
    (herror : ∀ log e, P log (.error e))
    (hop : ∀ s, Guarantee log s op)
    (h : ∀ s a, batch.outcome s = .ok a → (f a).Obeys Guarantee P (⟨op, s⟩ :: log)) :
    (commit op batch >>= f).Obeys Guarantee P log := fun s =>
  ⟨hop s, obeys_ofExcept_bind (fun e _ => herror _ e) fun a ha => h s a ha⟩

theorem only_look (answer : Store → α) : (look answer).Only Operation.IsQuiet :=
  only_query.mpr trivial

theorem only_call (answer : Servers → Except Failure α) : (call answer).Only Operation.IsQuiet :=
  only_bind.mpr ⟨only_look _, fun _ _ => only_ofExcept _⟩

theorem only_registrationCurrent (connector : Connector) (clientId : String)
    (requiredScopes : List String) :
    (registrationCurrent connector clientId requiredScopes).Only Operation.IsQuiet := by
  unfold registrationCurrent
  split
  · split
    · refine only_bind.mpr ⟨only_call _, fun answer _ => ?_⟩
      split
      · simp
      · simp
    · simp
  · simp

theorem obeys_of_quiet {p : Connecting α} (h : p.Only Operation.IsQuiet) (log : ConnectorLog) :
    p.Obeys Guarantee (fun _ _ => True) log :=
  h.obeys guarantee_of_quiet (fun _ _ _ _ => trivial) fun _ _ _ => trivial

def HasRead (log : ConnectorLog) (c : Connector) : Prop :=
  ∃ d ∈ log, d.before.findConnector c.id = some c

theorem HasRead.mono {log' : ConnectorLog} {c : Connector} (h : HasRead log c)
    (hlog : log <:+ log') :
    HasRead log' c := by
  obtain ⟨d, hd, hread⟩ := h
  exact ⟨d, hlog.subset hd, hread⟩

theorem obeys_updateRegistration {connector : Connector} {clientId clientSecret : String}
    {metadata : OidcMetadata} {Q : ConnectorLog → Except Failure Bool → Prop}
    (hread : HasRead log connector) (hclientId : connector.resourceClientId = some clientId)
    (hsecret : connector.resourceClientSecret = some clientSecret) (hQ : ∀ log r, Q log r) :
    (updateRegistration connector clientId clientSecret metadata).Obeys Guarantee Q log := by
  unfold updateRegistration
  split
  · rename_i uri accessToken _ _
    refine obeys_call_bind (fun _ _ => hQ _ _) fun s answer hanswer => ?_
    split
    · refine obeys_ofExcept_bind (fun _ _ => hQ _ _) fun updated hresponse => ?_
      refine obeys_require_bind (fun hsame => ?_) fun _ => hQ _ _
      refine obeys_look_bind fun _ => ?_
      refine obeys_commit_bind (fun _ _ => hQ _ _) (fun s' => ?_) fun _ _ _ => hQ _ _
      refine ⟨?_, fun _ _ _ huses => (nomatch huses), fun _ _ hpins => (nomatch hpins)⟩
      obtain ⟨d, hd, hfound⟩ := hread
      refine ⟨d.before, mem_stores (List.mem_cons_of_mem _ (List.mem_cons_of_mem _ hd)), s,
        mem_stores (List.mem_cons_of_mem _ List.mem_cons_self), connector, uri, accessToken,
        clientSecret, metadata.registrationScopes, _, hfound, ?_, hsecret,
        ?_, hresponse⟩
      · rw [hclientId, hsame]
      · rwa [hsame]
    · exact obeys_require_bind (fun _ => hQ _ _) fun _ => hQ _ _
  · exact hQ _ _

theorem obeys_replaceRegistration {connector : Connector} {endpoint clientId clientSecret : String}
    {metadata : OidcMetadata} {requiredScopes : List String}
    {Q : ConnectorLog → Except Failure ℕ → Prop} (hread : HasRead log connector)
    (hclientId : connector.resourceClientId = some clientId)
    (hsecret : connector.resourceClientSecret = some clientSecret) (hQ : ∀ log r, Q log r) :
    (replaceRegistration connector endpoint clientId clientSecret metadata requiredScopes).Obeys
      Guarantee Q log := by
  unfold replaceRegistration
  refine obeys_call_bind (fun _ _ => hQ _ _) fun s client hregistered => ?_
  refine obeys_look_bind fun _ => ?_
  refine obeys_commit_bind (fun _ _ => hQ _ _) (fun s' => ?_) fun s' rotated _ => ?_
  · refine ⟨?_, fun _ _ _ huses => (nomatch huses), fun _ _ hpins => (nomatch hpins)⟩
    obtain ⟨d, hd, hfound⟩ := hread
    exact ⟨d.before, mem_stores (List.mem_cons_of_mem _ (List.mem_cons_of_mem _ hd)), s,
      mem_stores (List.mem_cons_of_mem _ List.mem_cons_self), connector, endpoint,
      metadata.registrationScopes, hfound, rfl, rfl, rfl, hclientId, hsecret,
      hregistered⟩
  · split
    · exact hQ _ _
    · exact obeys_look_bind fun _ => obeys_orThrow_bind (fun _ _ => hQ _ _) fun _ => hQ _ _

theorem present_eq_some {column : Option String} {x : String} (h : present column = some x) :
    column = some x := (Option.filter_eq_some_iff.mp h).1

theorem obeys_ensureDynamicConnectorScopes (connectorId : Id) (requiredScopes : List String)
    (log : ConnectorLog) : (ensureDynamicConnectorScopes connectorId requiredScopes).Obeys Guarantee
      (fun _ _ => True) log := by
  unfold ensureDynamicConnectorScopes
  refine obeys_look_bind fun s => obeys_orThrow_bind (fun connector hfound => ?_) fun _ => trivial
  obtain rfl : connector.id = connectorId := key_of_lookup hfound
  have hread : HasRead (⟨.read, s⟩ :: log) connector := ⟨⟨.read, s⟩, List.mem_cons_self, hfound⟩
  dsimp only
  split
  · exact trivial
  · split
    · rename_i issuer endpoint clientId clientSecret _ _ hclientId hsecret
      have hclientId := present_eq_some hclientId
      have hsecret := present_eq_some hsecret
      refine (only_registrationCurrent connector clientId requiredScopes).obeys_bind
        guarantee_of_quiet (fun log' current hgrown _ => ?_) fun _ _ _ => trivial
      split
      · exact trivial
      · refine obeys_call_bind (fun _ _ => trivial) fun s' metadata _ => ?_
        refine obeys_require_bind (fun _ => ?_) fun _ => trivial
        have hread' := (hread.mono hgrown.suffix).mono (List.suffix_cons ⟨.read, s'⟩ log')
        have hupdate : (updateRegistration connector clientId clientSecret metadata).Obeys Guarantee
            (fun _ _ => True) (⟨.read, s'⟩ :: log') :=
          obeys_updateRegistration hread' hclientId hsecret fun _ _ => trivial
        refine hupdate.bind (fun log'' updated hsuffix _ => ?_) fun _ _ _ => trivial
        split
        · exact trivial
        · exact obeys_replaceRegistration (hread'.mono hsuffix) hclientId hsecret
            fun _ _ => trivial
    · exact trivial

theorem obeys_requireActiveConnectorAuthorization (resourceId : Id) (clientGeneration : Option ℕ)
    (log : ConnectorLog) :
    (requireActiveConnectorAuthorization resourceId clientGeneration).Obeys Guarantee
      (fun log' r => ∀ client, r = .ok client → Resolved (stores log') resourceId client ∧
        ∀ generation, clientGeneration = some generation → client.clientGeneration = generation)
      log := by
  unfold requireActiveConnectorAuthorization
  have herror : ∀ (log' : ConnectorLog) (e : Failure) (client : ResolvedClient),
      (.error e : Except Failure ResolvedClient) = .ok client →
        Resolved (stores log') resourceId client ∧
          ∀ generation, clientGeneration = some generation → client.clientGeneration = generation :=
    fun _ _ _ h => nomatch h
  refine obeys_look_bind fun s => obeys_orThrow_bind (fun r hresource => ?_) fun _ => herror _ _
  refine obeys_orThrow_bind (fun connectorId hconnector => ?_) fun _ => herror _ _
  refine obeys_look_bind fun s' => ?_
  cases hclient : (s'.findConnector connectorId).bind (·.activeClient clientGeneration) with
  | none => exact herror _ _
  | some client =>
    obtain ⟨c, hc, hactive⟩ := Option.bind_eq_some_iff.mp hclient
    obtain ⟨hresource, _⟩ := Option.filter_eq_some_iff.mp hresource
    rintro client' hclient'
    obtain rfl := Except.ok.inj hclient'
    refine ⟨⟨s, ?_, s', ?_, r, connectorId, c, clientGeneration, hresource, hconnector,
      hc, hactive⟩,
      (Connector.of_activeClient hactive).1⟩
    · exact List.mem_cons_of_mem _ List.mem_cons_self
    · exact List.mem_cons_self

theorem only_requireConnector (resourceId : Id) :
    (requireConnector resourceId).Only Operation.IsQuiet := by
  refine only_bind.mpr ⟨only_look _, fun _ _ => ?_⟩
  exact only_bind.mpr ⟨only_orThrow _ _, fun _ _ => only_orThrow _ _⟩

theorem only_requireCredential (credentialId : Id) :
    (requireCredential credentialId).Only Operation.IsQuiet :=
  only_bind.mpr ⟨only_look _, fun _ _ => only_orThrow _ _⟩

theorem obeys_updateConnector (driver : ConnectorDriver) (id : Id) (input : UpdateConnector)
    (log : ConnectorLog) :
    (updateConnector driver id input).Obeys Guarantee (fun _ _ => True) log := by
  unfold updateConnector
  refine obeys_look_bind fun s => obeys_orThrow_bind (fun current hfound => ?_) fun _ => trivial
  refine obeys_ofExcept_bind (fun _ _ => trivial) fun _ _ => ?_
  refine obeys_call_bind (fun _ _ => trivial) fun s' oidc hprepared => ?_
  refine obeys_look_bind fun _ => ?_
  refine obeys_ofExcept_bind (fun _ _ => trivial) fun _ _ => ?_
  refine obeys_commit_bind (fun _ _ => trivial) (fun s'' => ?_) fun s'' updated _ => ?_
  · refine ⟨?_, fun _ _ _ huses => (nomatch huses), fun _ _ hpins => (nomatch hpins)⟩
    exact ⟨s, mem_stores (List.mem_cons_of_mem _ (List.mem_cons_of_mem _ List.mem_cons_self)), s',
      mem_stores (List.mem_cons_of_mem _ List.mem_cons_self), current, hfound, hprepared⟩
  · refine obeys_orThrow_bind (fun updated _ => ?_) fun _ => trivial
    dsimp only
    split
    · exact obeys_commit_bind (fun _ _ => trivial)
        (fun s => guarantee_of_quiet _ s (.revokeAuthorizations id) trivial)
        fun _ _ _ => obeys_of_quiet (only_ofExcept _) _
    · exact obeys_of_quiet (only_ofExcept _) _

theorem only_refreshDynamicConnectorMetadata (connectorId : Id) :
    (refreshDynamicConnectorMetadata connectorId).Only Operation.IsQuiet := by
  refine only_bind.mpr ⟨only_look _, fun _ _ => ?_⟩
  refine only_bind.mpr ⟨only_orThrow _ _, fun connector _ =>
    only_ite.mpr ⟨fun _ => trivial, fun _ => ?_⟩⟩
  refine only_bind.mpr ⟨only_orThrow _ _, fun issuer _ => ?_⟩
  refine only_bind.mpr ⟨only_call _, fun metadata _ => ?_⟩
  refine only_bind.mpr ⟨only_look _, fun now _ => ?_⟩
  exact only_bind.mpr ⟨⟨trivial, fun s => only_ofExcept _⟩, fun _ _ => trivial⟩

/-- A request that names a resolved client at the generation it was resolved for. -/
theorem guarantee_of_uses {op : Operation} {resourceId : Id} {generation : ℕ}
    {client : ResolvedClient}
    {s : Store} (huses : op.Uses resourceId generation client)
    (hresolved : Resolved (stores log) resourceId client)
    (hgeneration : client.clientGeneration = generation) : Guarantee log s op := by
  constructor
  · cases huses <;> trivial
  · intro r g x hx
    cases huses <;> cases hx <;> exact ⟨hgeneration, hresolved⟩
  · intro r g hpins
    cases huses <;> cases hpins

/-- What was authorized may be pinned. -/
theorem guarantee_of_pins {op : Operation} {resourceId : Id} {generation : ℕ}
    {client : ResolvedClient}
    {s : Store} {d : Event Store Operation} (hpins : op.Pins resourceId generation) (hd : d ∈ log)
    (huses : d.operation.Uses resourceId generation client) : Guarantee log s op := by
  constructor
  · cases hpins <;> trivial
  · intro r g x hx
    cases hpins <;> cases hx
  · intro r g hg
    have hsame : r = resourceId ∧ g = generation := by
      cases hpins <;> cases hg <;> exact ⟨rfl, rfl⟩
    obtain ⟨rfl, rfl⟩ := hsame
    exact ⟨d, hd, client, huses⟩

theorem Resolved.mono {history history' : List Store} {resourceId : Id} {client : ResolvedClient}
    (h : Resolved history resourceId client) (hsub : ∀ u ∈ history, u ∈ history') :
    Resolved history' resourceId client := by
  obtain ⟨u, hu, v, hv, h⟩ := h
  exact ⟨u, hsub u hu, v, hsub v hv, h⟩

theorem Resolved.later {resourceId : Id} {client : ResolvedClient} {log' : ConnectorLog}
    (h : Resolved (stores log) resourceId client) (hlog : log <:+ log') :
    Resolved (stores log') resourceId client :=
  h.mono fun _ hu => (hlog.map _).subset hu

theorem obeys_createResourceConnectionIntent (request : IntentRequest) (log : ConnectorLog) :
    (createResourceConnectionIntent request).Obeys Guarantee (fun _ _ => True) log := by
  unfold createResourceConnectionIntent
  refine (only_requireConnector request.resourceId).obeys_bind guarantee_of_quiet
    (fun log connectorId _ _ => ?_) fun _ _ _ => trivial
  refine (obeys_requireActiveConnectorAuthorization request.resourceId none log).bind
    (fun log _ _ _ => ?_) fun _ _ _ => trivial
  refine (obeys_ensureDynamicConnectorScopes connectorId request.scopes log).bind
    (fun log generation _ _ => ?_) fun _ _ _ => trivial
  refine (obeys_requireActiveConnectorAuthorization request.resourceId (some generation) log).bind
    (fun log client _ hresolved => ?_) fun _ _ _ => trivial
  obtain ⟨hresolved, hgeneration⟩ := hresolved client rfl
  have hgeneration := hgeneration generation rfl
  intro s
  refine ⟨guarantee_of_quiet log s .generateId trivial, ?_⟩
  refine obeys_look_bind fun s' => ?_
  intro s''
  have hlater : Resolved (stores (⟨.read, s'⟩ :: ⟨.generateId, s⟩ :: log))
      request.resourceId client :=
    hresolved.later ((List.suffix_cons _ _).trans (List.suffix_cons _ _))
  have huses := Operation.Uses.authorize request.resourceId client
  refine ⟨guarantee_of_uses huses hlater rfl, ?_⟩
  refine obeys_ofExcept_bind (fun _ _ => trivial) fun _ _ => ?_
  refine obeys_query fun s => ⟨?_, trivial⟩
  rw [hgeneration] at huses
  exact guarantee_of_pins (.intent _) List.mem_cons_self huses

theorem obeys_completeResourceConnectionIntent (state code : String) (log : ConnectorLog) :
    (completeResourceConnectionIntent state code).Obeys Guarantee (fun _ _ => True) log := by
  unfold completeResourceConnectionIntent
  refine obeys_look_bind fun s => ?_
  refine obeys_commit_bind (fun _ _ => trivial) (fun s => guarantee_of_quiet _ s _ trivial)
    fun s intent _ => ?_
  refine obeys_orThrow_bind (fun intent _ => ?_) fun _ => trivial
  refine (obeys_requireActiveConnectorAuthorization intent.resourceId (some intent.clientGeneration)
    _).bind (fun log client _ hresolved => ?_) fun _ _ _ => trivial
  obtain ⟨hresolved, hgeneration⟩ := hresolved client rfl
  have huses := Operation.Uses.exchangeCode intent client code
  intro s
  refine ⟨guarantee_of_uses huses hresolved (hgeneration _ rfl), ?_⟩
  refine obeys_ofExcept_bind (fun _ _ => trivial) fun refreshToken _ => ?_
  refine obeys_look_bind fun s' => ?_
  intro s''
  refine ⟨guarantee_of_quiet _ s'' .generateId trivial, ?_⟩
  have hpins : ∀ credential : Credential, credential.resourceId = intent.resourceId →
      credential.clientGeneration = intent.clientGeneration →
      (Operation.storeCredential credential).Pins intent.resourceId intent.clientGeneration := by
    intro credential hresource hgeneration
    rw [← hresource, ← hgeneration]
    exact .credential credential
  refine fun s => ⟨?_, obeys_of_quiet (only_ofExcept _) _⟩
  exact guarantee_of_pins (hpins _ rfl rfl)
    (List.mem_cons_of_mem _ (List.mem_cons_of_mem _ List.mem_cons_self)) huses

theorem obeys_refreshConnectionToken (credential : Credential) {client : ResolvedClient}
    (hresolved : Resolved (stores log) credential.resourceId client)
    (hgeneration : client.clientGeneration = credential.clientGeneration) :
    (refreshConnectionToken credential client).Obeys Guarantee (fun _ _ => True) log := by
  unfold refreshConnectionToken
  intro s
  refine ⟨guarantee_of_uses (.refresh credential client) hresolved hgeneration, ?_⟩
  refine obeys_ofExcept_bind (fun _ _ => trivial) fun refreshToken _ => ?_
  refine obeys_commit_bind (fun _ _ => trivial) (fun s => guarantee_of_quiet _ s _ trivial)
    fun s updated _ => ?_
  exact obeys_of_quiet (only_require _ _) _

/-- The refresh with the client of the credential's generation. -/
theorem obeys_refreshWithClient (credential : Credential) (log : ConnectorLog) :
    (requireActiveConnectorAuthorization credential.resourceId
      (some credential.clientGeneration) >>= fun client =>
        refreshConnectionToken credential client).Obeys Guarantee (fun _ _ => True) log := by
  refine (obeys_requireActiveConnectorAuthorization credential.resourceId
    (some credential.clientGeneration) log).bind (fun log client _ hresolved => ?_)
      fun _ _ _ => trivial
  obtain ⟨hresolved, hgeneration⟩ := hresolved client rfl
  exact obeys_refreshConnectionToken credential hresolved (hgeneration _ rfl)

theorem obeys_readResourceCatalog (credentialId : Id) (log : ConnectorLog) :
    (readResourceCatalog credentialId).Obeys Guarantee (fun _ _ => True) log :=
  (only_requireCredential credentialId).obeys_bind guarantee_of_quiet
    (fun log credential _ _ => obeys_refreshWithClient credential log) fun _ _ _ => trivial

theorem obeys_issueProviderToken (credentialId : Id) (log : ConnectorLog) :
    (issueProviderToken credentialId).Obeys Guarantee (fun _ _ => True) log := by
  unfold issueProviderToken
  refine (only_requireCredential credentialId).obeys_bind guarantee_of_quiet
    (fun log credential _ _ => ?_) fun _ _ _ => trivial
  refine (only_requireConnector credential.resourceId).obeys_bind guarantee_of_quiet
    (fun log connectorId _ _ => ?_) fun _ _ _ => trivial
  refine obeys_look_bind fun s => ?_
  dsimp only
  split
  · refine (obeys_ensureDynamicConnectorScopes connectorId credential.grantedScopes _).bind
      (fun log generation _ _ => ?_) fun _ _ _ => trivial
    exact obeys_require_bind (fun _ => obeys_refreshWithClient credential log) fun _ => trivial
  · exact obeys_refreshWithClient credential _

theorem obeys_program (c : Call) : c.program.Obeys Guarantee (fun _ _ => True) [] := by
  cases c with
  | updateConnector driver id input => exact obeys_updateConnector driver id input []
  | refreshDynamicConnectorMetadata id =>
    exact obeys_of_quiet (only_refreshDynamicConnectorMetadata id) []
  | createResourceConnectionIntent request => exact obeys_createResourceConnectionIntent request []
  | completeResourceConnectionIntent state code =>
    exact obeys_completeResourceConnectionIntent state code []
  | issueProviderToken credentialId => exact obeys_issueProviderToken credentialId []
  | readResourceCatalog credentialId => exact obeys_readResourceCatalog credentialId []
  | elapse milliseconds =>
    exact obeys_query fun s => ⟨guarantee_of_quiet [] s (.elapse milliseconds) trivial, trivial⟩
  | outside servers =>
    exact obeys_query fun s => ⟨guarantee_of_quiet [] s (.outside servers) trivial, trivial⟩

end Contracts

section Runs

abbrev ConnectorPool := Pool Call Store Operation Failure Unit

/-- Connectors as they are created: at generation 1, with a client or without one. -/
structure Store.Created (Registered : String → String → Prop) (s : Store) : Prop where
  honest : s.servers.Honest Registered
  first : ∀ c ∈ s.connectors, c.resourceClientGeneration = 1 ∧
    c.resourceRetiredClientGenerations = []
  wellFormed : ∀ c ∈ s.connectors, c.WellFormed Registered
  intents : s.intents = []
  credentials : s.credentials = []

def Store.connectorOf (s : Store) (resourceId : Id) : Option Id :=
  (s.findResource resourceId).bind (·.connectorId)

/-- A generation of a connector stands for one client in everything that was stored, and every
request about what is pinned to it names that client with its own secret. -/
structure NamesOneClient (Registered : String → String → Prop) (pool : ConnectorPool) : Prop where
  stored : ∀ s ∈ pool.history, ∀ s' ∈ pool.history, ∀ connectorId g x y,
    s.Names connectorId g x → s'.Names connectorId g y → x = y
  registered : ∀ s ∈ pool.history, ∀ connectorId c, s.findConnector connectorId = some c →
    ∀ x k, c.Stores x k → Registered x k
  used : ∀ t ∈ pool.threads, ∀ e ∈ t.log, ∀ resourceId g client,
    e.operation.Uses resourceId g client →
    Registered client.clientId client.clientSecret ∧
      ∃ connectorId, pool.store.connectorOf resourceId = some connectorId ∧
        (∃ s ∈ pool.history, s.Names connectorId g client.clientId) ∧
        ∀ s ∈ pool.history, ∀ x, s.Names connectorId g x → x = client.clientId
  pinned : ∀ t ∈ pool.threads, ∀ e ∈ t.log, ∀ resourceId g, e.operation.Pins resourceId g →
    ∃ d ∈ t.log, ∃ client, d.operation.Uses resourceId g client

variable {Registered : String → String → Prop} {pool : ConnectorPool}

/-- The move writes no connector whose client is not the one that the write was computed from. -/
def FindsClients (Registered : String → String → Prop) (pool : ConnectorPool)
    (m : Move Call) : Prop :=
  ∀ i t op, m = .resume i → pool.pending i = some (t, op) →
    op.FindsClient Registered pool.store pool.past

abbrev FindingReachable (Registered : String → String → Prop) : ConnectorPool → Prop :=
  Reachable Call.program (Store.Created Registered) (FindsClients Registered)

theorem consistent_created {s : Store} (h : s.Created Registered) : Consistent Registered s [] := by
  have hrow : ∀ id c, s.findConnector id = some c → ∀ g x, c.Names g x →
      c.resourceClientId = some x := by
    intro id c hc g x hx
    rcases hx with ⟨_, hx⟩ | ⟨r, hr, _⟩
    · exact hx
    · rw [(h.first c (mem_of_lookup hc)).2] at hr
      cases hr
  constructor
  · intro u hu
    obtain rfl := List.mem_singleton.mp hu
    exact h.honest
  · intro u hu id c hc
    obtain rfl := List.mem_singleton.mp hu
    exact h.wellFormed c (mem_of_lookup hc)
  · intro u hu v hv id g x y hx hy
    obtain rfl := List.mem_singleton.mp hu
    obtain rfl := List.mem_singleton.mp hv
    obtain ⟨c, hc, hx⟩ := hx
    obtain ⟨d, hd, hy⟩ := hy
    obtain rfl := Option.some.inj (hc.symm.trans hd)
    exact Option.some.inj ((hrow id c hc g x hx).symm.trans (hrow id c hc g y hy))
  · intro id c hc _ u hu d hd
    obtain rfl := List.mem_singleton.mp hu
    obtain rfl := Option.some.inj (hc.symm.trans hd)
    exact ⟨fun _ _ hx => hx, fun _ _ => rfl⟩

theorem stores_subset (h : FindingReachable Registered pool)
    {t : Thread Call Store Operation Failure Unit}
    (ht : t ∈ pool.threads) : ∀ u ∈ stores t.log, u ∈ pool.history := by
  intro u hu
  obtain ⟨e, he, rfl⟩ := List.mem_map.mp hu
  exact List.mem_cons_of_mem _ (h.before_mem_past t ht e he)

theorem consistent_of_reachable (h : FindingReachable Registered pool) :
    Consistent Registered pool.store pool.past := by
  apply h.keeps_past fun s hs => consistent_created hs
  intro pool i t op hpool hok hpending hconsistent
  obtain ⟨ht, hguarantee⟩ := hpool.pending_obeys (Q := fun _ _ _ => True) obeys_program hpending
  exact consistent_perform hconsistent (hguarantee.computed.mono (stores_subset hpool ht))
    (hok i t op rfl hpending)

/-- Resources stay with their connectors. -/
theorem resources_evolution :
    Evolution Operation fun s t : Store => t.resources = s.resources where
  refl _ := rfl
  trans _ _ _ h h' := h'.trans h
  step op s := by
    cases op with
    | storeCredential credential =>
      change ((Repository.upsertProviderCredential credential).settle s).resources = s.resources
      unfold Repository.upsertProviderCredential
      by_cases hany : (s.credentials.any fun c => c.resourceId == credential.resourceId &&
          c.owner == credential.owner) = true
      · simp only [Batch.settle, if_pos hany]
      · simp only [Batch.settle, if_neg hany]
    | _ => rfl

theorem connectorOf_eq (h : FindingReachable Registered pool) {s : Store} (hs : s ∈ pool.history)
    (resourceId : Id) : pool.store.connectorOf resourceId = s.connectorOf resourceId := by
  have hsame := h.evolves_history resources_evolution s hs
  rw [Store.connectorOf, Store.findResource, hsame]
  rfl

/-- Generations name one client each, in every run whose writes find the clients that they were
computed from. -/
theorem generation_names_one_client (h : FindingReachable Registered pool) :
    NamesOneClient Registered pool := by
  have hconsistent := consistent_of_reachable h
  constructor
  · exact hconsistent.one
  · intro s hs connectorId c hc
    exact (hconsistent.wellFormed s hs connectorId c hc).stores
  · intro t ht e he resourceId g client huses
    obtain ⟨earlier, later, hlog, hguarantee⟩ :=
      (h.logged (Q := fun _ _ _ => True) obeys_program ht).of_mem he
    obtain ⟨hgeneration, u, hu, v, hv, r, connectorId, c, requested, hresource, hconnector, hc,
      hactive⟩ := hguarantee.uses resourceId g client huses
    have hsub : ∀ u ∈ stores earlier, u ∈ pool.history := by
      intro u hu
      apply stores_subset h ht
      rw [hlog, stores, List.map_append]
      exact List.mem_append_right _ (List.mem_cons_of_mem _ hu)
    obtain ⟨_, hnames, hstores⟩ := Connector.of_activeClient hactive
    rw [hgeneration] at hnames
    have hclient : v.Names connectorId g client.clientId := ⟨c, hc, hnames⟩
    refine ⟨(hconsistent.wellFormed v (hsub v hv) connectorId c hc).stores _ _ hstores,
      connectorId, ?_, ⟨v, hsub v hv, hclient⟩, fun s hs x hx => ?_⟩
    · rw [connectorOf_eq h (hsub u hu), Store.connectorOf, hresource]
      exact hconnector
    · exact hconsistent.one s hs v (hsub v hv) connectorId g x client.clientId hx hclient
  · intro t ht e he resourceId g hpins
    obtain ⟨earlier, later, hlog, hguarantee⟩ :=
      (h.logged (Q := fun _ _ _ => True) obeys_program ht).of_mem he
    obtain ⟨d, hd, hclient⟩ := hguarantee.pins resourceId g hpins
    refine ⟨d, ?_, hclient⟩
    rw [hlog]
    exact List.mem_append_right _ (List.mem_cons_of_mem _ hd)

end Runs

namespace Sample

/-- A server that registers another client and does not let registrations be managed. -/
def servers : Servers where
  discover issuer := .ok ⟨issuer, issuer ++ "/authorize", issuer ++ "/token", issuer ++ "/userinfo",
    issuer ++ "/jwks", some (issuer ++ "/register"), some (issuer ++ "/revoke"), [], none, none,
    ["read", "write"]⟩
  registerClient _ scopes := .ok ⟨"second", "second-secret", none, none, some scopes⟩
  readClient _ _ := .ok (.status 404)
  updateClient _ _ _ _ := .ok (.status 404)
  pushAuthorization _ := .ok ()
  exchangeCode _ code := .ok code
  exchangeRefreshToken _ refreshToken := .ok refreshToken

def connector : Connector where
  id := "c"
  providerId := "p"
  displayName := "Provider"
  enabled := true
  authenticationEnabled := false
  clientId := none
  clientSecret := none
  scopes := none
  providerMetadata := none
  resourceAuthorizationEnabled := true
  resourceClientId := some "first"
  resourceClientSecret := some "first-secret"
  resourceIssuer := some "https://server"
  resourceAuthorizationEndpoint := some "https://server/authorize"
  resourceTokenEndpoint := some "https://server/token"
  resourceUserInfoEndpoint := some "https://server/userinfo"
  resourceRevocationEndpoint := some "https://server/revoke"
  resourceJwksEndpoint := some "https://server/jwks"
  resourceRegistrationEndpoint := some "https://server/register"
  resourceRegistrationMode := some "dynamic"
  resourceRegistrationClientUri := none
  resourceRegistrationAccessToken := none
  resourceRegisteredScopes := some ["read"]
  resourceClientGeneration := 1
  resourceRetiredClientGenerations := []
  scopesSupported := []
  authorizationDetailsCatalogEndpoint := none
  authorizationDetailsCatalogScope := none
  updatedAt := 0

def repositories : ApiResource where
  id := "repositories"
  identifier := "repositories"
  resourceUrl := "https://repositories"
  authorizationModel := .external
  connectorId := some "c"
  authorizationDetails := []
  enabled := true
  ownerOrganizationId := "o"
  visibility := .publicResource
  scopeRegistry := none
  availableToAgents := true
  deletedAt := none

def store : Store := ⟨0, 0, servers, [repositories], [connector], [], []⟩

def Registered (clientId clientSecret : String) : Prop :=
  (clientId, clientSecret) ∈ [("first", "first-secret"), ("second", "second-secret")]

theorem honest : servers.Honest Registered where
  registers endpoint scopes client h := by
    cases h
    exact .tail _ (.head _)
  updates uri accessToken clientId scopes body registered clientSecret h := by cases h

theorem created : store.Created Registered where
  honest := honest
  first c hc := by
    obtain rfl := List.mem_singleton.mp hc
    exact ⟨rfl, rfl⟩
  wellFormed c hc := by
    obtain rfl := List.mem_singleton.mp hc
    refine ⟨fun r hr => (nomatch hr), nofun, ?_⟩
    rintro x k (⟨hx, hk⟩ | ⟨r, hr, _⟩)
    · obtain rfl := Option.some.inj hx
      obtain rfl := Option.some.inj hk
      exact .head _
    · cases hr
  intents := rfl
  credentials := rfl

def intending (index : ℕ) (state : String) (scopes : List String) (steps : ℕ) : List (Move Call) :=
  Move.alone index
    (.createResourceConnectionIntent ⟨state, "repositories", .user "u", scopes⟩) steps

def completing (index : ℕ) (state : String) : List (Move Call) :=
  Move.alone index (.completeResourceConnectionIntent state "code") 8

/-- The connector is configured again, with a newly registered client. -/
def reset : UpdateConnector where
  resourceAuthorization :=
    some (some ⟨true, some "https://server", some "dynamic", none, none⟩)

def resetting (index : ℕ) : List (Move Call) :=
  Move.alone index (.updateConnector ⟨fun _ => true, fun _ => .ok ()⟩ "c" reset) 5

/-- An intent is pinned to the first client, another one extends the scopes, and the first intent is
completed. -/
def extended : List (Move Call) :=
  intending 0 "x" ["read"] 10 ++ intending 1 "y" ["read", "write"] 14 ++ completing 2 "x"

/-- An intent is pinned to the first client, the connector is configured again, and the intent is
completed. -/
def reconfigured : List (Move Call) :=
  intending 0 "x" ["read"] 10 ++ resetting 1 ++ completing 2 "x"

def authorized (client : ResolvedClient) (pool : ConnectorPool) : Bool :=
  pool.threads.any fun t => t.log.any fun e =>
    match e.operation with
    | .authorize resourceId client' => resourceId == "repositories" && client' == client
    | _ => false

def completed (generation : ℕ) (client : ResolvedClient) (pool : ConnectorPool) : Bool :=
  pool.threads.any fun t => t.log.any fun e =>
    match e.operation with
    | .exchangeCode intent client' _ => intent.resourceId == "repositories" &&
      intent.clientGeneration == generation && client' == client
    | _ => false

def first : ResolvedClient := ⟨1, "first", "first-secret"⟩

def second : ResolvedClient := ⟨1, "second", "second-secret"⟩

def presentClient (generation : ℕ) (clientId : String) (s : Store) : Bool :=
  (s.findConnector "c").any fun c =>
    c.resourceClientGeneration == generation && c.resourceClientId == some clientId

theorem uses_of_authorized {client : ResolvedClient} {pool : ConnectorPool}
    (h : authorized client pool = true) : ∃ t ∈ pool.threads, ∃ e ∈ t.log,
      e.operation.Uses "repositories" client.clientGeneration client := by
  simp only [authorized, List.any_eq_true] at h
  obtain ⟨t, ht, e, he, hop⟩ := h
  refine ⟨t, ht, e, he, ?_⟩
  split at hop
  · rename_i resourceId client' heq
    simp only [Bool.and_eq_true, beq_iff_eq] at hop
    obtain ⟨rfl, rfl⟩ := hop
    rw [heq]
    exact .authorize _ _
  · cases hop

theorem uses_of_completed {generation : ℕ} {client : ResolvedClient} {pool : ConnectorPool}
    (h : completed generation client pool = true) : ∃ t ∈ pool.threads, ∃ e ∈ t.log,
      ∃ intent code, e.operation = .exchangeCode intent client code ∧
        e.operation.Uses "repositories" generation client := by
  simp only [completed, List.any_eq_true] at h
  obtain ⟨t, ht, e, he, hop⟩ := h
  refine ⟨t, ht, e, he, ?_⟩
  split at hop
  · rename_i intent client' code heq
    simp only [Bool.and_eq_true, beq_iff_eq] at hop
    obtain ⟨⟨hresource, rfl⟩, rfl⟩ := hop
    refine ⟨intent, code, heq, ?_⟩
    rw [heq, ← hresource]
    exact .exchangeCode _ _ _
  · cases hop

theorem names_of_presentClient {generation : ℕ} {clientId : String} {s : Store}
    (h : presentClient generation clientId s = true) : s.Names "c" generation clientId := by
  simp only [presentClient, Option.any_eq_true, Bool.and_eq_true, beq_iff_eq] at h
  obtain ⟨c, hc, hgeneration, hclient⟩ := h
  exact ⟨c, hc, .inl ⟨hgeneration, hclient⟩⟩

end Sample

def findsCheck (pool : ConnectorPool) : Move Call → Bool
  | .start _ => true
  | .resume i =>
    match pool.pending i with
    | some (_, .rotateClient id _ _ retired _ _ _) =>
      (pool.store.findConnector id).all fun c => c.resourceClientId == some retired.clientId
    | some (_, .configureConnector _ _ _ _) | some (_, .updateClient _ _ _ _) => false
    | some (_, .outside _) => false
    | _ => true

theorem findsClients_of_check {pool : ConnectorPool} {m : Move Call}
    (h : findsCheck pool m = true) :
    FindsClients Sample.Registered pool m := by
  rintro i t op rfl hpending
  rw [findsCheck, hpending] at h
  cases op with
  | rotateClient id expectedGeneration retiredBefore retired client metadata now =>
    intro c hc _
    dsimp only at h
    rw [hc] at h
    simpa using h
  | configureConnector | updateClient | outside => cases h
  | _ => exact trivial

/-- A retired client completes what was pinned to it. -/
theorem generation_names_one_client_sample : ∃ pool : ConnectorPool,
    pool.store.Names "c" 2 "second" ∧
      (∃ t ∈ pool.threads, ∃ e ∈ t.log, ∃ intent code,
        e.operation = .exchangeCode intent Sample.first code ∧
        e.operation.Uses "repositories" 1 Sample.first) ∧
      NamesOneClient Sample.Registered pool := by
  have hrun : ((Pool.initial Sample.store).run Call.program findsCheck Sample.extended).any
      (fun pool => Sample.presentClient 2 "second" pool.store &&
        Sample.completed 1 Sample.first pool) = true := by
    decide +kernel
  obtain ⟨pool, hpool, hcheck⟩ := (Option.any_eq_true _ _).mp hrun
  rw [Bool.and_eq_true] at hcheck
  have hreach : FindingReachable Sample.Registered pool :=
    Reachable.of_run (fun _ _ => findsClients_of_check) (.initial Sample.created) hpool
  exact ⟨pool, Sample.names_of_presentClient hcheck.1, Sample.uses_of_completed hcheck.2,
    generation_names_one_client hreach⟩

/-- An intent which the first client authorized is completed with the second one. -/
theorem generation_of_two_clients : ∃ pool : ConnectorPool,
    Reachable Call.program (Store.Created Sample.Registered) (Unrestricted _ _ _ _ _) pool ∧
      (∃ t ∈ pool.threads, ∃ e ∈ t.log, e.operation.Uses "repositories" 1 Sample.first) ∧
      (∃ t ∈ pool.threads, ∃ e ∈ t.log, ∃ intent code,
        e.operation = .exchangeCode intent Sample.second code ∧
          e.operation.Uses "repositories" 1 Sample.second) ∧
      ¬NamesOneClient Sample.Registered pool := by
  have hrun : ((Pool.initial Sample.store).run Call.program
      (fun _ _ => true) Sample.reconfigured).any
      (fun pool => Sample.authorized Sample.first pool && Sample.completed 1 Sample.second pool &&
        pool.past.any (Sample.presentClient 1 "first") &&
        Sample.presentClient 1 "second" pool.store) = true := by
    decide +kernel
  obtain ⟨pool, hpool, hcheck⟩ := (Option.any_eq_true _ _).mp hrun
  simp only [Bool.and_eq_true, List.any_eq_true] at hcheck
  obtain ⟨⟨⟨hauthorized, hcompleted⟩, s, hs, hfirst⟩, hsecond⟩ := hcheck
  refine ⟨pool, Reachable.of_run (fun _ _ _ => trivial) (.initial Sample.created) hpool,
    Sample.uses_of_authorized hauthorized, Sample.uses_of_completed hcompleted, fun h => ?_⟩
  have hsame := h.stored s (List.mem_cons_of_mem _ hs) pool.store List.mem_cons_self "c" 1 "first"
    "second" (Sample.names_of_presentClient hfirst) (Sample.names_of_presentClient hsecond)
  exact absurd hsame (by decide)

end FlareAuth.Connectors
