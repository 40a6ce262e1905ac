import FlareAuth.CredentialRefresh

/-!
# Versions of credentials

A refresh compares and sets the version, a reconnect only sets it. As long as
each reconnect writes the successor of the stored version, the version grows
with every token value and identifies it.
-/

namespace FlareAuth.Credentials

open Concurrent Procedure Relational

/-- A later state of the same row: the same tokens under the same version, or a greater version. -/
structure Credential.Advances (c c' : Credential) : Prop where
  id : c'.id = c.id
  authorizationId : c'.authorizationId = c.authorizationId
  version : (c'.tokens = c.tokens ∧ c'.credentialVersion = c.credentialVersion) ∨
    c.credentialVersion < c'.credentialVersion

namespace Credential.Advances

theorem refl (c : Credential) : c.Advances c := ⟨rfl, rfl, .inl ⟨rfl, rfl⟩⟩

theorem trans {c d e : Credential} (h : c.Advances d) (h' : d.Advances e) : c.Advances e := by
  refine ⟨h'.id.trans h.id, h'.authorizationId.trans h.authorizationId, ?_⟩
  rcases h.version with ⟨htokens, hversion⟩ | hlt
  · rcases h'.version with ⟨htokens', hversion'⟩ | hlt'
    · exact .inl ⟨htokens'.trans htokens, hversion'.trans hversion⟩
    · right
      omega
  · right
    rcases h'.version with ⟨_, hversion'⟩ | hlt'
    · omega
    · omega

end Credential.Advances

/-- The writes of a token value: by a reconnect and by a completed refresh. -/
def Operation.WritesTokens : Operation → Prop
  | .upsertProviderCredential _ _ => True
  | .completeProviderCredentialRefresh _ _ => True
  | _ => False

/-- A reconnect that is about to commit writes the successor of the stored version. -/
def Operation.Current (s : Store) : Operation → Prop
  | .upsertProviderCredential authorizationId input =>
    ∀ c ∈ s.credentials, c.authorizationId = authorizationId →
      input.credentialVersion = c.credentialVersion + 1
  | _ => True

variable {op : Operation} {s : Store}

theorem Updates.advances {p : Credential → Bool} {f : Credential → Credential}
    (h : Updates op p f) (hcurrent : op.Current s) {c : Credential} (hc : c ∈ s.credentials)
    (hp : p c = true) : c.Advances (f c) := by
  refine ⟨h.id c, h.authorizationId c, ?_⟩
  cases h with
  | replace authorizationId input =>
    have hversion := hcurrent c hc (by simpa using hp)
    right
    change c.credentialVersion < input.credentialVersion
    omega
  | complete id input =>
    simp only [Credential.claimedAt, Bool.and_eq_true, beq_iff_eq] at hp
    right
    change c.credentialVersion < input.expectedVersion + 1
    omega
  | claim | release | revoke | disconnect => exact .inl ⟨rfl, rfl⟩

/-- A write of a token value moves the version. -/
theorem Updates.version_lt {p : Credential → Bool} {f : Credential → Credential}
    (h : Updates op p f) (hwrites : op.WritesTokens) (hcurrent : op.Current s) {c : Credential}
    (hc : c ∈ s.credentials) (hp : p c = true) : c.credentialVersion < (f c).credentialVersion := by
  cases h with
  | replace authorizationId input =>
    have hversion := hcurrent c hc (by simpa using hp)
    change c.credentialVersion < input.credentialVersion
    omega
  | complete id input =>
    simp only [Credential.claimedAt, Bool.and_eq_true, beq_iff_eq] at hp
    change c.credentialVersion < input.expectedVersion + 1
    omega
  | claim | release | revoke | disconnect => exact hwrites.elim

theorem advances_perform (hcurrent : op.Current s) :
    Evolves Credential.Advances s.credentials (op.perform s).credentials := by
  rcases credentials_perform op s with hsame | ⟨c, hinsert, _⟩ | ⟨p, f, hupdates, hupdate⟩
  · rw [hsame]
    exact .refl .refl _
  · rw [hinsert]
    exact .append .refl _ _
  · rw [hupdate]
    exact .updateWhere .refl fun r hr hp => hupdates.advances hcurrent hr hp

section Runs

variable [Locale]

/-- Each reconnect that a move commits finds the version which it read. -/
def CurrentReconnects (pool : CredentialPool) (m : Move Call) : Prop :=
  ∀ i t op, m = .resume i → pool.pending i = some (t, op) → op.Current pool.store

abbrev CurrentReachable : CredentialPool → Prop :=
  Reachable Call.program Store.Fresh CurrentReconnects

theorem CurrentReachable.reachable {pool : CredentialPool} (h : CurrentReachable pool) :
    CredentialReachable pool := h.mono fun _ _ _ => trivial

theorem unique_of_reachable {pool : CredentialPool} (h : CredentialReachable pool) :
    ∀ s ∈ pool.history, s.Unique :=
  h.invariant (fun s hs => ⟨by simp [hs.credentials], by simp [hs.credentials]⟩)
    fun op s hs => unique_perform op hs

theorem advances_drift : Drift Call.program Store.Fresh CurrentReconnects
    fun s t => Evolves Credential.Advances s.credentials t.credentials where
  refl _ := .refl .refl _
  trans _ _ _ h h' := h.trans (fun _ _ _ => .trans) h'
  step _ i t op _ hok hpending := advances_perform (hok i t op rfl hpending)

variable {pool : CredentialPool} {t : Thread Call Store Operation Failure Unit}

/-- A performed operation was current when it was performed. -/
theorem current_of_log (h : CurrentReachable pool) (ht : t ∈ pool.threads)
    {e : Event Store Operation} (he : e ∈ t.log) :
    e.operation.Current e.before ∧ e.before.Unique ∧ (apply e.operation e.before).Unique := by
  obtain ⟨later, earlier, hlog⟩ := List.append_of_mem he
  obtain ⟨pool₀, i, t₀, after, hreach, hok, hi, _, _, hrest, hstore, _⟩ := h.of_log ht hlog
  have hunique := unique_of_reachable (CurrentReachable.reachable hreach) pool₀.store
    List.mem_cons_self
  rw [hstore] at hunique
  have hcurrent := hok i t₀ e.operation rfl (Pool.pending_of_step hi hrest)
  rw [hstore] at hcurrent
  exact ⟨hcurrent, hunique, unique_perform e.operation hunique⟩

/-- The version grows with each write of a token value. -/
theorem version_grows (h : CurrentReachable pool) (ht : t ∈ pool.threads)
    {e : Event Store Operation} (he : e ∈ t.log) {c c' : Credential} (hc : c ∈ e.before.credentials)
    (hc' : c' ∈ (apply e.operation e.before).credentials) (hid : c'.id = c.id) :
    c.Advances c' ∧ (e.operation.WritesTokens → c' ≠ c →
      c.credentialVersion < c'.credentialVersion) := by
  obtain ⟨hcurrent, hunique, hunique'⟩ := current_of_log h ht he
  have hevolves := advances_perform hcurrent
  refine ⟨hevolves.of_mem_of_key_eq (fun _ _ ha => ha.id) hunique'.ids hc hc' hid, ?_⟩
  intro hwrites hne
  rw [apply_eq] at hc' hunique'
  rcases credentials_perform e.operation e.before with hsame | ⟨d, hinsert, hlacks⟩ |
      ⟨p, f, hupdates, hupdate⟩
  · rw [hsame] at hc'
    exact absurd (eq_of_key_eq hunique.ids hc' hc hid) hne
  · rw [hinsert] at hc'
    rcases List.mem_append.mp hc' with hold | hnew
    · exact absurd (eq_of_key_eq hunique.ids hold hc hid) hne
    · obtain rfl := List.mem_singleton.mp hnew
      exact absurd hid.symm (hlacks c hc).1
  · have hmem : (if p c then f c else c) ∈ (e.operation.perform e.before).credentials := by
      rw [hupdate]
      exact mem_updateWhere.mpr ⟨c, hc, rfl⟩
    by_cases hp : p c = true
    · rw [if_pos hp] at hmem
      obtain rfl := eq_of_key_eq hunique'.ids hc' hmem (hid.trans (hupdates.id c).symm)
      exact hupdates.version_lt hwrites hcurrent hc hp
    · rw [if_neg hp] at hmem
      exact absurd (eq_of_key_eq hunique'.ids hc' hmem hid) hne

/-- Two states of a credential with the same version hold the same tokens. -/
theorem tokens_eq_of_version_eq (h : CurrentReachable pool) {s s' : Store} (hs : s ∈ pool.history)
    (hs' : s' ∈ pool.history) {c c' : Credential} (hc : c ∈ s.credentials)
    (hc' : c' ∈ s'.credentials) (hid : c'.id = c.id)
    (hversion : c'.credentialVersion = c.credentialVersion) : c'.tokens = c.tokens := by
  have hunique := unique_of_reachable (CurrentReachable.reachable h)
  have hpairs := h.drifts_history advances_drift
  have hlater : ∀ {s s' : Store} {c c' : Credential},
      Evolves Credential.Advances s.credentials s'.credentials → s'.Unique → c ∈ s.credentials →
      c' ∈ s'.credentials → c'.id = c.id → c'.credentialVersion = c.credentialVersion →
      c'.tokens = c.tokens := by
    intro s s' c c' hevolves hs' hc hc' hid hversion
    have hadvances := hevolves.of_mem_of_key_eq (fun _ _ ha => ha.id) hs'.ids hc hc' hid
    rcases hadvances.version with ⟨htokens, _⟩ | hlt
    · exact htokens
    · omega
  obtain ⟨j, hj⟩ := List.mem_iff_getElem?.mp hs
  obtain ⟨k, hk⟩ := List.mem_iff_getElem?.mp hs'
  obtain ⟨hjlen, rfl⟩ := List.getElem?_eq_some_iff.mp hj
  obtain ⟨hklen, rfl⟩ := List.getElem?_eq_some_iff.mp hk
  rcases Nat.lt_trichotomy j k with hlt | rfl | hlt
  · have hevolves := List.pairwise_iff_getElem.mp hpairs j k hjlen hklen hlt
    exact (hlater hevolves (hunique _ hs) hc' hc hid.symm hversion.symm).symm
  · obtain rfl := eq_of_key_eq (hunique _ hs).ids hc' hc hid
    rfl
  · have hevolves := List.pairwise_iff_getElem.mp hpairs k j hklen hjlen hlt
    exact hlater hevolves (hunique _ hs') hc hc' hid hversion

/-- A refresh that overwrites tokens was made from these very tokens. -/
theorem refreshed_from (h : CurrentReachable pool) (ht : t ∈ pool.threads)
    {e : Event Store Operation} (he : e ∈ t.log) {id : Id} {input : RefreshedTokens}
    (hop : e.operation = .completeProviderCredentialRefresh id input) {c : Credential}
    (hc : c ∈ e.before.credentials) (hid : c.id = id)
    (hclaimed : c.claimedAt input.expectedVersion input.claimId = true) :
    ∃ d ∈ t.log, d.operation = .refresh c.tokens.refreshToken ∧
      ∃ r ∈ t.log, r.operation = .readCredential id ∧
        (r.before.findCredential id).map (·.tokens) = some c.tokens := by
  have hreach := CurrentReachable.reachable h
  obtain ⟨earlier, later, hlog, hguarantee⟩ := (h.logged program_contract ht).of_mem he
  rw [hop] at hguarantee
  obtain ⟨_, ⟨credential, ⟨r, hr, hread, hfound⟩, rfl, hversion, d, hd, hrefresh⟩, _⟩ := hguarantee
  have hmem : ∀ {f : Event Store Operation}, f ∈ earlier → f ∈ t.log := by
    intro f hf
    rw [hlog]
    exact List.mem_append_right _ (List.mem_cons_of_mem _ hf)
  have hhistory : ∀ {f : Event Store Operation}, f ∈ t.log → f.before ∈ pool.history :=
    fun hf => List.mem_cons_of_mem _ (h.before_mem_past t ht _ hf)
  simp only [Credential.claimedAt, Bool.and_eq_true, beq_iff_eq] at hclaimed
  have htokens : c.tokens = credential.tokens :=
    tokens_eq_of_version_eq h (hhistory (hmem hr)) (hhistory he) (mem_of_lookup hfound) hc hid
      (hclaimed.1.2.trans hversion.symm)
  refine ⟨d, hmem hd, by rw [hrefresh, htokens], r, hmem hr, hread, ?_⟩
  rw [hfound, htokens]
  rfl

/-- The version identifies the tokens in every run whose reconnects are current. -/
theorem credentialVersion_identifies_tokens (h : CurrentReachable pool) :
    (∀ t ∈ pool.threads, ∀ e ∈ t.log, ∀ c ∈ e.before.credentials,
      ∀ c' ∈ (apply e.operation e.before).credentials, c'.id = c.id →
        c.Advances c' ∧ (e.operation.WritesTokens → c' ≠ c →
          c.credentialVersion < c'.credentialVersion)) ∧
    (∀ s ∈ pool.history, ∀ s' ∈ pool.history, ∀ c ∈ s.credentials, ∀ c' ∈ s'.credentials,
      c'.id = c.id → c'.credentialVersion = c.credentialVersion → c'.tokens = c.tokens) ∧
    ∀ t ∈ pool.threads, ∀ e ∈ t.log, ∀ id input,
      e.operation = .completeProviderCredentialRefresh id input → ∀ c ∈ e.before.credentials,
      c.id = id → c.claimedAt input.expectedVersion input.claimId = true →
      ∃ d ∈ t.log, d.operation = .refresh c.tokens.refreshToken ∧
        ∃ r ∈ t.log, r.operation = .readCredential id ∧
          (r.before.findCredential id).map (·.tokens) = some c.tokens := by
  refine ⟨?_, ?_, ?_⟩
  · intro t ht e he c hc c' hc' hid
    exact version_grows h ht he hc hc' hid
  · intro s hs s' hs' c hc c' hc' hid hversion
    exact tokens_eq_of_version_eq h hs hs' hc hc' hid hversion
  · intro t ht e he id input hop c hc hid hclaimed
    exact refreshed_from h ht he hop hc hid hclaimed

end Runs

def currentCheck (pool : CredentialPool) : Move Call → Bool
  | .start _ => true
  | .resume i =>
    match pool.pending i with
    | some (_, .upsertProviderCredential authorizationId input) =>
      pool.store.credentials.all fun c => c.authorizationId != authorizationId ||
        input.credentialVersion == c.credentialVersion + 1
    | _ => true

theorem currentReconnects_of_check {pool : CredentialPool} {m : Move Call}
    (h : currentCheck pool m = true) : CurrentReconnects pool m := by
  intro i t op hm hpending
  cases op with
  | upsertProviderCredential authorizationId input =>
    intro c hc hauthorization
    rw [hm, currentCheck, hpending] at h
    have hversion := List.all_eq_true.mp h c hc
    simpa [hauthorization] using hversion
  | _ => exact trivial

/-- A refresh of the credential, and after it a reconnect from start to end. -/
def sequentialMoves : List (Move Call) :=
  Sample.connected "x" ++ Move.alone 1 (.refreshConnectionToken "id-1") 9 ++
    Sample.reconnecting 2 "y" ++ [.resume 2]

set_option maxRecDepth 10000 in
theorem credentialVersion_identifies_tokens_sample : ∃ pool : CredentialPool,
    (∃ c ∈ pool.store.credentials, c.credentialVersion = 3) ∧
    ∀ s ∈ pool.history, ∀ s' ∈ pool.history, ∀ c ∈ s.credentials, ∀ c' ∈ s'.credentials,
      c'.id = c.id → c'.credentialVersion = c.credentialVersion → c'.tokens = c.tokens := by
  have hrun : ((Pool.initial Sample.store).run Call.program currentCheck sequentialMoves).any
      (fun pool => pool.store.credentials.any fun c => c.credentialVersion == 3) = true := by
    decide +kernel
  obtain ⟨pool, hpool, hcheck⟩ := (Option.any_eq_true _ _).mp hrun
  have hreach : CurrentReachable pool :=
    Reachable.of_run (fun _ _ => currentReconnects_of_check) (.initial Sample.store_fresh) hpool
  refine ⟨pool, ?_, (credentialVersion_identifies_tokens hreach).2.1⟩
  obtain ⟨c, hc, hversion⟩ := List.any_eq_true.mp hcheck
  exact ⟨c, hc, by simpa using hversion⟩

/-- A refresh that runs between the read and the write of a reconnect. -/
def overlappingMoves : List (Move Call) :=
  Sample.connected "x" ++ Sample.reconnecting 1 "y" ++
    Move.alone 2 (.refreshConnectionToken "id-1") 9 ++ [.resume 1]

set_option maxRecDepth 10000 in
/-- The reconnect then stores its tokens under the version of the refreshed ones. -/
theorem version_of_two_tokens : ∃ pool : CredentialPool, CredentialReachable pool ∧
    ∃ s ∈ pool.history, ∃ c ∈ s.credentials, ∃ c' ∈ pool.store.credentials,
      c'.id = c.id ∧ c'.credentialVersion = c.credentialVersion ∧ c'.tokens ≠ c.tokens := by
  have hrun : (Sample.run overlappingMoves).any (fun pool => pool.history.any fun s =>
      s.credentials.any fun c => pool.store.credentials.any fun c' =>
        c'.id == c.id && c'.credentialVersion == c.credentialVersion && c'.tokens != c.tokens) =
      true := by
    decide +kernel
  obtain ⟨pool, hpool, hcheck⟩ := Sample.reachable_of_run hrun
  refine ⟨pool, hpool, ?_⟩
  simpa [and_assoc] using hcheck

end FlareAuth.Credentials
