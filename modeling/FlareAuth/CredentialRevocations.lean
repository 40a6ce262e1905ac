import FlareAuth.CredentialRefresh

/-!
# Refused refreshes

A refused refresh revokes its credential by the identifier alone. It revokes what
it claimed as long as nothing else claims or replaces the credential between the
claim and the revocation.
-/

namespace FlareAuth.Credentials

open Concurrent Procedure Relational

def Store.HeldBy (s : Store) (id : Id) (version : ℕ) (claimId : Id) : Prop :=
  ∀ c ∈ s.credentials, c.id = id → c.status = .active → c.claimedAt version claimId = true

/-- The operation writes and claims no credential that is held, and ends no claim but its own. -/
def Operation.Spares (s : Store) (id claimId : Id) : Operation → Prop
  | .upsertProviderCredential authorizationId _ =>
    ∀ c ∈ s.credentials, c.authorizationId = authorizationId → c.id ≠ id
  | .claimProviderCredentialRefresh claim =>
    ∀ c ∈ s.credentials, c.claimable claim = true → c.id ≠ id
  | .completeProviderCredentialRefresh _ input => input.claimId ≠ claimId
  | .releaseProviderCredentialRefresh _ _ other => other ≠ claimId
  | _ => True

variable {s : Store} {op : Operation} {id claimId : Id} {version : ℕ}

theorem claimedAt_iff {c : Credential} : c.claimedAt version claimId = true ↔
    c.status = .active ∧ c.credentialVersion = version ∧ c.refreshClaimId = some claimId := by
  simp only [Credential.claimedAt, Bool.and_eq_true, beq_iff_eq, and_assoc]

/-- A held row that is selected is not active afterwards. -/
theorem Updates.held {p : Credential → Bool} {f : Credential → Credential} (h : Updates op p f)
    (hspares : op.Spares s id claimId) {c : Credential} (hc : c ∈ s.credentials) (hid : c.id = id)
    (hheld : c.status = .active → c.claimedAt version claimId = true) (hp : p c = true) :
    (f c).status ≠ .active := by
  have hother : ∀ {v : ℕ} {other : Id}, other ≠ claimId → c.claimedAt v other = true → False := by
    intro v other hne hat
    obtain ⟨hactive, _, hother⟩ := claimedAt_iff.mp hat
    have hown := (claimedAt_iff.mp (hheld hactive)).2.2
    exact hne (Option.some.inj (hother.symm.trans hown))
  cases h with
  | replace authorizationId input => exact absurd hid (hspares c hc (by simpa using hp))
  | claim claim => exact absurd hid (hspares c hc hp)
  | complete id' input =>
    rw [Bool.and_eq_true] at hp
    exact (hother hspares hp.2).elim
  | release id' expectedVersion other =>
    rw [Bool.and_eq_true] at hp
    exact (hother hspares hp.2).elim
  | revoke id' now => exact Status.noConfusion
  | disconnect id' now => exact Status.noConfusion

theorem Store.HeldBy.perform (h : s.HeldBy id version claimId)
    (hexists : ∃ c ∈ s.credentials, c.id = id) (hspares : op.Spares s id claimId) :
    (op.perform s).HeldBy id version claimId := by
  intro c' hc' hid hactive
  rcases credentials_perform op s with hsame | ⟨c, hinsert, hlacks⟩ | ⟨p, f, hupdates, hupdate⟩
  · rw [hsame] at hc'
    exact h c' hc' hid hactive
  · rw [hinsert] at hc'
    rcases List.mem_append.mp hc' with hold | hnew
    · exact h c' hold hid hactive
    · obtain rfl := List.mem_singleton.mp hnew
      obtain ⟨r, hr, hsame⟩ := hexists
      exact absurd (hsame.trans hid.symm) (hlacks r hr).1
  · rw [hupdate] at hc'
    obtain ⟨c, hc, rfl⟩ := mem_updateWhere.mp hc'
    by_cases hp : p c = true
    · rw [if_pos hp] at hid hactive ⊢
      have hid' : c.id = id := (hupdates.id c).symm.trans hid
      exact absurd hactive (hupdates.held hspares hc hid' (h c hc hid') hp)
    · rw [if_neg hp] at hid hactive ⊢
      exact h c hc hid hactive

theorem within_insertCredential (input : Credential) :
    (Repository.insertCredential input).Within fun s t : Store => t.generated = s.generated := by
  intro s x t h
  rcases insertCredential_settle s input with herror | ⟨hok, _⟩
  · rw [herror] at h
    cases h
  · rw [hok] at h
    cases h
    rfl

theorem generated_perform (op : Operation) (s : Store) :
    s.generated ≤ (op.perform s).generated := by
  have hrefl : ∀ s : Store, s.generated = s.generated := fun _ => rfl
  have htrans : ∀ s t u : Store, t.generated = s.generated → u.generated = t.generated →
      u.generated = s.generated := fun _ _ _ h h' => h'.trans h
  cases op with
  | generateId => exact Nat.le_succ _
  | insertProviderConnection input =>
    simp only [Operation.perform, Batch.settle, Repository.insertProviderConnection]
    split <;> rename_i heq <;> split at heq <;> cases heq <;> exact Nat.le_refl _
  | createResourceAuthorization authorization credential =>
    have hwithin : (Repository.createResourceAuthorization authorization credential).Within
        fun s t : Store => t.generated = s.generated := by
      refine .bind htrans (.read hrefl _) fun active => .bind htrans (.read hrefl _) fun taken => ?_
      have hinsert : ((Batch.modify fun s : Store => if active then
          { s with authorizations := s.authorizations ++ [authorization] } else s) >>=
          fun _ => Repository.insertCredential credential).Within
          fun s t : Store => t.generated = s.generated := by
        refine .bind htrans (.modify fun s => ?_) fun _ => within_insertCredential credential
        split <;> rfl
      by_cases hcollides : (active && taken) = true
      · dsimp only
        rw [if_pos hcollides]
        refine .bind htrans ?_ fun _ => hinsert
        intro s x t h
        cases h
      · dsimp only
        rw [if_neg hcollides]
        exact hinsert
    exact (hwithin.settle hrefl s).ge
  | upsertProviderCredential authorizationId input =>
    have hwithin : (Repository.upsertProviderCredential authorizationId input).Within
        fun s t : Store => t.generated = s.generated := by
      refine .bind htrans (.modify fun _ => rfl) fun _ =>
        .bind htrans (.read hrefl _) fun existing => ?_
      split
      · exact .modify fun _ => rfl
      · exact within_insertCredential _
    exact (hwithin.settle hrefl s).ge
  | _ => exact Nat.le_refl _

theorem generated_evolution : Evolution Operation fun s t : Store => s.generated ≤ t.generated :=
  ⟨fun _ => Nat.le_refl _, fun _ _ _ => Nat.le_trans, generated_perform⟩

theorem nextId_inj {s t : Store} (h : s.nextId = t.nextId) : s.generated = t.generated :=
  Text.toString_inj ((String.append_right_inj _).mp h)

/-- Credentials are never deleted. -/
theorem stored_evolution (id : Id) : Evolution Operation fun s t : Store =>
    (∃ c ∈ s.credentials, c.id = id) → ∃ c ∈ t.credentials, c.id = id where
  refl _ := fun h => h
  trans _ _ _ h h' := fun hs => h' (h hs)
  step op s := by
    rintro ⟨c, hc, rfl⟩
    rw [apply_eq]
    rcases credentials_perform op s with hsame | ⟨d, hinsert, _⟩ | ⟨p, f, hupdates, hupdate⟩
    · rw [hsame]
      exact ⟨c, hc, rfl⟩
    · rw [hinsert]
      exact ⟨c, List.mem_append_left _ hc, rfl⟩
    · rw [hupdate]
      refine ⟨_, mem_updateWhere.mpr ⟨c, hc, rfl⟩, ?_⟩
      split
      · exact hupdates.id c
      · rfl

section Runs

/-- An attempt that claimed the credential was refused, and has not revoked it yet. -/
def Awaiting (log : Log Store Operation) (id : Id) (version : ℕ) (claimId : Id) : Prop :=
  (∃ e ∈ log, Claimed e id version claimId) ∧ (∃ d ∈ log, Refused d) ∧
    ∀ e ∈ log, ¬e.operation.IsRevocation

variable [Locale]

/-- A refused attempt on the credential is about to revoke it. -/
def Awaited (pool : CredentialPool) (id : Id) : Prop :=
  ∃ t ∈ pool.threads, ∃ version claimId, Awaiting t.log id version claimId

/-- A refusal finds the credential as the attempt claimed it, and until the revocation no reconnect
replaces the credential and no other attempt claims it. -/
structure Undisturbed (pool : CredentialPool) (m : Move Call) : Prop where
  refusal : ∀ i t op, m = .resume i → pool.pending i = some (t, op) → Refused ⟨op, pool.store⟩ →
    ∀ e ∈ t.log, ∀ id version claimId, Claimed e id version claimId →
      pool.store.HeldBy id version claimId
  reconnect : ∀ i t authorizationId input, m = .resume i →
    pool.pending i = some (t, .upsertProviderCredential authorizationId input) →
    ∀ c ∈ pool.store.credentials, c.authorizationId = authorizationId → ¬Awaited pool c.id
  takeover : ∀ i t claim, m = .resume i →
    pool.pending i = some (t, .claimProviderCredentialRefresh claim) →
    ∀ c ∈ pool.store.credentials, c.claimable claim = true → ¬Awaited pool c.id

abbrev UndisturbedReachable : CredentialPool → Prop :=
  Reachable Call.program Store.Fresh Undisturbed

theorem UndisturbedReachable.reachable {pool : CredentialPool} (h : UndisturbedReachable pool) :
    CredentialReachable pool := h.mono fun _ _ _ => trivial

section Attempts

variable {pool : CredentialPool} {t u : Thread Call Store Operation Failure Unit} {i j : ℕ}

/-- The identifier of a claim was generated by the attempt. -/
theorem generated_of_claimed (h : CredentialReachable pool) (ht : t ∈ pool.threads)
    {e : Event Store Operation} (he : e ∈ t.log) (hclaimed : Claimed e id version claimId) :
    ∃ g ∈ t.log, g.operation = .generateId ∧ claimId = g.before.nextId := by
  obtain ⟨claim, hop, _, _, rfl, _⟩ := hclaimed
  obtain ⟨earlier, later, hlog, hguarantee⟩ := (h.logged program_contract ht).of_mem he
  rw [hop] at hguarantee
  obtain ⟨⟨g, hg, hgenerates, hid⟩, _⟩ := hguarantee
  refine ⟨g, ?_, hgenerates, hid⟩
  rw [hlog]
  exact List.mem_append_right _ (List.mem_cons_of_mem _ hg)

/-- Two attempts claim under different identifiers. -/
theorem claimId_ne (h : CredentialReachable pool) (hij : i ≠ j) (ht : pool.threads[i]? = some t)
    (hu : pool.threads[j]? = some u) {e d : Event Store Operation} (he : e ∈ t.log)
    (hd : d ∈ u.log) {id' other : Id} {version' : ℕ} (hclaimed : Claimed e id version claimId)
    (hclaimed' : Claimed d id' version' other) : claimId ≠ other := by
  obtain ⟨g, hg, hgenerates, rfl⟩ :=
    generated_of_claimed h (List.mem_of_getElem? ht) he hclaimed
  obtain ⟨g', hg', hgenerates', rfl⟩ :=
    generated_of_claimed h (List.mem_of_getElem? hu) hd hclaimed'
  have hmoves : ∀ (op : Operation) (s : Store), op = .generateId →
      s.generated < (apply op s).generated := by
    rintro _ s rfl
    exact Nat.lt_succ_self _
  have hstamp : g.before.generated ≠ g'.before.generated :=
    h.stamp_ne generated_evolution hmoves hij ht hu hg hg' hgenerates hgenerates'
  exact fun heq => hstamp (nextId_inj heq)

theorem spares_of_undisturbed (h : CredentialReachable pool) (hm : Undisturbed pool (.resume i))
    (hu : pool.threads[i]? = some u) {op : Operation} (hpending : pool.pending i = some (u, op))
    (hguarantee : Guarantee u.log pool.store op) (ht : pool.threads[j]? = some t)
    (hawaiting : Awaiting t.log id version claimId) : op.Spares pool.store id claimId := by
  have hawaited : ∀ {c : Credential}, c.id = id → Awaited pool c.id := by
    rintro c rfl
    exact ⟨t, List.mem_of_getElem? ht, version, claimId, hawaiting⟩
  obtain ⟨⟨e, he, hclaimed⟩, ⟨d, hd, hrefused⟩, _⟩ := hawaiting
  have hother : ∀ {e' : Event Store Operation} {id' other : Id} {version' : ℕ}, e' ∈ u.log →
      Claimed e' id' version' other → (∀ d ∈ u.log, ¬Refused d) → other ≠ claimId := by
    intro e' id' other version' he' hclaimed' hnone
    by_cases hij : i = j
    · subst hij
      obtain rfl : u = t := Option.some.inj (hu.symm.trans ht)
      exact absurd hrefused (hnone d hd)
    · exact claimId_ne h hij hu ht he' he hclaimed' hclaimed
  cases op with
  | upsertProviderCredential authorizationId input =>
    intro c hc hauthorization hid
    exact hm.reconnect i u authorizationId input rfl hpending c hc hauthorization (hawaited hid)
  | claimProviderCredentialRefresh claim =>
    intro c hc hclaimable hid
    exact hm.takeover i u claim rfl hpending c hc hclaimable (hawaited hid)
  | completeProviderCredentialRefresh id' input =>
    obtain ⟨⟨e', he', hclaimed'⟩, _, hnone⟩ := hguarantee
    exact hother he' hclaimed' hnone
  | releaseProviderCredentialRefresh id' expectedVersion other =>
    obtain ⟨⟨e', he', hclaimed'⟩, hnone⟩ := hguarantee
    exact hother he' hclaimed' hnone
  | _ => exact trivial

/-- While a refused attempt is about to revoke its credential, it holds the credential. -/
theorem held_of_awaiting (h : UndisturbedReachable pool) (ht : t ∈ pool.threads)
    (hawaiting : Awaiting t.log id version claimId) : pool.store.HeldBy id version claimId := by
  induction h generalizing t with
  | initial hs => simp [Pool.initial] at ht
  | @next pool pool' m hpool hm hnext ih =>
    cases m with
    | start c =>
      simp only [Pool.next, Option.some.injEq] at hnext
      subst hnext
      rcases List.mem_append.mp ht with ht | ht
      · exact ih ht hawaiting
      · obtain rfl := List.mem_singleton.mp ht
        obtain ⟨⟨e, he, _⟩, _⟩ := hawaiting
        simp at he
    | resume i =>
      obtain ⟨u, op, after, hu, hrest, hstore, _, hthreads⟩ := Pool.next_resume hnext
      have hreach := UndisturbedReachable.reachable hpool
      have hpending := Pool.pending_of_step hu hrest
      have hguarantee : Guarantee u.log pool.store op := by
        have hleft := (hreach.obeys program_contract u (List.mem_of_getElem? hu)).2
        rw [hrest] at hleft
        exact (hleft _).1
      have hkept : ∀ {j : ℕ} {w : Thread Call Store Operation Failure Unit},
          pool.threads[j]? = some w → Awaiting w.log id version claimId →
          (apply op pool.store).HeldBy id version claimId := by
        intro j w hw hwaits
        have hmem := List.mem_of_getElem? hw
        have hspares := spares_of_undisturbed hreach hm hu hpending hguarantee hw hwaits
        obtain ⟨e, he, claim, _, rfl, _, _, hany⟩ := hwaits.1
        obtain ⟨c, hc, hclaimable⟩ := List.any_eq_true.mp hany
        have hid : c.id = claim.id := by
          simp only [Credential.claimable, Bool.and_eq_true, beq_iff_eq] at hclaimable
          exact hclaimable.1.1.1
        exact (ih hmem hwaits).perform
          (hreach.evolves_before (stored_evolution claim.id) hmem he ⟨c, hc, hid⟩) hspares
      obtain ⟨j, hj⟩ := List.mem_iff_getElem?.mp ht
      rw [hstore]
      rcases Pool.threads_next_resume hu hthreads hj with ⟨_, rfl⟩ | ⟨_, hold⟩
      · obtain ⟨⟨e, he, hclaimed⟩, ⟨d, hd, hrefused⟩, hnone⟩ := hawaiting
        by_cases hnow : Refused ⟨op, pool.store⟩
        · have he' : e ∈ u.log := by
            rcases List.mem_cons.mp he with rfl | he
            · obtain ⟨_, _, hop, _⟩ := hnow
              obtain ⟨_, hop', _⟩ := hclaimed
              exact Operation.noConfusion (hop.symm.trans hop')
            · exact he
          have hheld := hm.refusal i u op rfl hpending hnow e he' id version claimId hclaimed
          obtain ⟨_, _, rfl, _⟩ := hnow
          exact hheld
        · have hd' : d ∈ u.log := by
            rcases List.mem_cons.mp hd with rfl | hd
            · exact absurd hrefused hnow
            · exact hd
          have he' : e ∈ u.log := by
            rcases List.mem_cons.mp he with rfl | he
            · obtain ⟨claim, rfl, _⟩ := hclaimed
              exact absurd hrefused (hguarantee.2.2 d hd').2
            · exact he
          exact hkept hu ⟨⟨e, he', hclaimed⟩, ⟨d, hd', hrefused⟩,
            fun r hr => hnone r (List.mem_cons_of_mem _ hr)⟩
      · exact hkept hold hawaiting

/-- What a revocation finds: every credential that it does not spare is at the version from which
the attempt started, and under the claim of the attempt. -/
theorem revoked_under_claim (h : UndisturbedReachable pool) (ht : t ∈ pool.threads)
    {f : Event Store Operation} (hf : f ∈ t.log) {now : ℕ}
    (hop : f.operation = .revokeProviderCredential id now) :
    ∃ e ∈ t.log, ∃ credential claimId, HasRead t.log credential ∧ credential.id = id ∧
      Claimed e id credential.credentialVersion claimId ∧ ∀ c ∈ f.before.credentials,
        c ∈ (apply f.operation f.before).credentials ∨
          (c.id = id ∧ c.claimedAt credential.credentialVersion claimId = true) := by
  have hreach := UndisturbedReachable.reachable h
  obtain ⟨earlier, later, hlog, hguarantee⟩ := (hreach.logged program_contract ht).of_mem hf
  rw [hop] at hguarantee
  obtain ⟨⟨e, he, version, claimId, hclaimed⟩, hrefused, hnone⟩ := hguarantee
  have hmem : ∀ {g : Event Store Operation}, g ∈ earlier → g ∈ t.log := by
    intro g hg
    rw [hlog]
    exact List.mem_append_right _ (List.mem_cons_of_mem _ hg)
  obtain ⟨pool₀, k, t₀, after, hpool₀, _, hk, _, hlog₀, _, hstore, _⟩ := h.of_log ht hlog
  have hheld : f.before.HeldBy id version claimId := by
    rw [← hstore]
    refine held_of_awaiting hpool₀ (List.mem_of_getElem? hk) ?_
    rw [hlog₀]
    exact ⟨⟨e, he, hclaimed⟩, hrefused, hnone⟩
  have hread : ∃ credential, HasRead t.log credential ∧ credential.id = id ∧
      credential.credentialVersion = version := by
    obtain ⟨claim, hclaim, rfl, rfl, _, _⟩ := hclaimed
    obtain ⟨before, after', hlog', hguarantee⟩ :=
      (hreach.logged program_contract ht).of_mem (hmem he)
    rw [hclaim] at hguarantee
    obtain ⟨_, ⟨credential, ⟨d, hd, hreads⟩, hid, hversion⟩, _⟩ := hguarantee
    refine ⟨credential, ⟨d, ?_, hreads⟩, hid, hversion⟩
    rw [hlog']
    exact List.mem_append_right _ (List.mem_cons_of_mem _ hd)
  obtain ⟨credential, hhasRead, hid, rfl⟩ := hread
  refine ⟨e, hmem he, credential, claimId, hhasRead, hid, hclaimed, fun c hc => ?_⟩
  by_cases hselected : c.id = id ∧ c.status = .active
  · exact .inr ⟨hselected.1, hheld c hc hselected.1 hselected.2⟩
  · left
    rw [hop]
    refine mem_updateWhere.mpr ⟨c, hc, ?_⟩
    rw [if_neg]
    simpa using hselected

omit [Locale] in
/-- The second statement of a revocation spares the authorizations of active credentials. -/
theorem bare_spares {now : ℕ} {a : ProviderResourceAuthorization} (ha : a ∈ s.authorizations)
    (hcredential : ∃ c ∈ s.credentials, c.authorizationId = a.id ∧ c.status = .active) :
    a ∈ ((Operation.revokeBareAuthorization id now).perform s).authorizations := by
  obtain ⟨c, hc, hauthorization, hactive⟩ := hcredential
  refine mem_updateWhere.mpr ⟨a, ha, ?_⟩
  rw [if_neg]
  intro hselected
  simp only [Bool.and_eq_true, beq_iff_eq, Bool.not_eq_true', List.any_eq_false] at hselected
  refine hselected.2 c hc ?_
  simp [hauthorization, hactive, hselected.1]

/-- A refused refresh leaves every newer credential and what is built on it alone. -/
theorem refusal_spares_newer (h : UndisturbedReachable pool) :
    ∀ t ∈ pool.threads, ∀ f ∈ t.log, ∀ id now,
      (f.operation = .revokeProviderCredential id now →
        (apply f.operation f.before).authorizations = f.before.authorizations ∧
        ∃ e ∈ t.log, ∃ credential claimId, HasRead t.log credential ∧ credential.id = id ∧
          Claimed e id credential.credentialVersion claimId ∧ ∀ c ∈ f.before.credentials,
            c ∈ (apply f.operation f.before).credentials ∨
              (c.id = id ∧ c.claimedAt credential.credentialVersion claimId = true)) ∧
      (f.operation = .revokeBareAuthorization id now →
        (apply f.operation f.before).credentials = f.before.credentials ∧
        ∀ a ∈ f.before.authorizations, (∃ c ∈ f.before.credentials, c.authorizationId = a.id ∧
          c.status = .active) → a ∈ (apply f.operation f.before).authorizations) := by
  intro t ht f hf id now
  constructor
  · intro hop
    refine ⟨?_, revoked_under_claim h ht hf hop⟩
    rw [hop]
    rfl
  · intro hop
    rw [hop]
    exact ⟨rfl, fun a ha hcredential => bare_spares ha hcredential⟩

end Attempts

end Runs

/-- An attempt has asked for a refresh and has revoked nothing. -/
def askedCheck (t : Thread Call Store Operation Failure Unit) : Bool :=
  (t.log.any fun d => match d.operation with
    | .refresh _ => true
    | _ => false) &&
  t.log.all fun e => match e.operation with
    | .revokeProviderCredential _ _ => false
    | _ => true

/-- A check that is stricter than the condition: it counts every attempt that has asked. -/
def undisturbedCheck (pool : CredentialPool) : Move Call → Bool
  | .start _ => true
  | .resume i =>
    match pool.pending i with
    | some (t, .refresh _) => t.log.all fun e => match e.operation with
      | .claimProviderCredentialRefresh claim => pool.store.credentials.all fun c =>
        c.id != claim.id || c.status != .active || c.claimedAt claim.expectedVersion claim.claimId
      | _ => true
    | some (_, .upsertProviderCredential _ _) | some (_, .claimProviderCredentialRefresh _) =>
      !pool.threads.any askedCheck
    | _ => true

theorem askedCheck_of_awaiting {t : Thread Call Store Operation Failure Unit}
    (h : Awaiting t.log id version claimId) : askedCheck t = true := by
  obtain ⟨_, ⟨d, hd, hrefused⟩, hnone⟩ := h
  rw [askedCheck, Bool.and_eq_true, List.any_eq_true, List.all_eq_true]
  constructor
  · obtain ⟨_, _, hop, _⟩ := hrefused
    exact ⟨d, hd, by rw [hop]⟩
  · intro e he
    have hnot := hnone e he
    split
    · rename_i hop
      rw [hop] at hnot
      exact absurd trivial hnot
    · rfl

theorem undisturbed_of_check {pool : CredentialPool} {m : Move Call}
    (h : undisturbedCheck pool m = true) : Undisturbed pool m := by
  have hnone : pool.threads.any askedCheck = false → ∀ id, ¬Awaited pool id := by
    rintro hany id ⟨t, ht, version, claimId, hawaiting⟩
    exact List.any_eq_false.mp hany t ht (askedCheck_of_awaiting hawaiting)
  constructor
  · intro i t op hm hpending hrefused e he id version claimId hclaimed c hc hid hactive
    obtain ⟨refreshToken, _, hop, _⟩ := hrefused
    obtain rfl : op = .refresh refreshToken := hop
    obtain ⟨claim, hclaim, rfl, rfl, rfl, _⟩ := hclaimed
    rw [hm, undisturbedCheck, hpending] at h
    have hheld := List.all_eq_true.mp h e he
    rw [hclaim] at hheld
    simpa [hid, hactive] using List.all_eq_true.mp hheld c hc
  · intro i t authorizationId input hm hpending c _ _
    rw [hm, undisturbedCheck, hpending] at h
    exact hnone (by simpa using h) c.id
  · intro i t claim hm hpending c _ _
    rw [hm, undisturbedCheck, hpending] at h
    exact hnone (by simpa using h) c.id

def revokesNewer (f : Event Store Operation) : Bool :=
  match f.operation with
  | .revokeProviderCredential id _ => id == "id-1" && f.before.credentials.any fun c =>
    c.id == id && c.status == .active && c.credentialVersion == 2
  | _ => false

/-- A refused refresh, and after it a reconnect that connects the account again. -/
def refusedMoves : List (Move Call) :=
  Sample.connected "lost" ++ Move.alone 1 (.refreshConnectionToken "id-1") 10 ++
    Sample.reconnecting 2 "y" ++ [.resume 2]

set_option maxRecDepth 10000 in
theorem refusal_spares_newer_sample : ∃ pool : CredentialPool,
    (∃ c ∈ pool.store.credentials, c.credentialVersion = 2 ∧ c.status = .active) ∧
    ∃ t ∈ pool.threads, ∃ f ∈ t.log, ∃ now, f.operation = .revokeProviderCredential "id-1" now ∧
      ∃ e ∈ t.log, ∃ version claimId, Claimed e "id-1" version claimId ∧
        ∀ c ∈ f.before.credentials, c ∈ (apply f.operation f.before).credentials ∨
          c.claimedAt version claimId = true := by
  have hrun : ((Pool.initial Sample.store).run Call.program undisturbedCheck refusedMoves).any
      (fun pool => (pool.store.credentials.any fun c => c.credentialVersion == 2 &&
        c.status == .active) && pool.threads.any fun t => t.log.any fun f => match f.operation with
          | .revokeProviderCredential id _ => id == "id-1"
          | _ => false) = true := by
    decide +kernel
  obtain ⟨pool, hpool, hcheck⟩ := (Option.any_eq_true _ _).mp hrun
  have hreach : UndisturbedReachable pool :=
    Reachable.of_run (fun _ _ => undisturbed_of_check) (.initial Sample.store_fresh) hpool
  simp only [Bool.and_eq_true, List.any_eq_true, beq_iff_eq] at hcheck
  obtain ⟨hcredential, t, ht, f, hf, hrevokes⟩ := hcheck
  refine ⟨pool, hcredential, t, ht, f, hf, ?_⟩
  split at hrevokes
  · rename_i id now hop
    obtain rfl : id = "id-1" := by simpa using hrevokes
    obtain ⟨_, e, he, credential, claimId, _, _, hclaimed, hspares⟩ :=
      (refusal_spares_newer hreach t ht f hf "id-1" now).1 hop
    exact ⟨now, hop, e, he, _, claimId, hclaimed, fun c hc => (hspares c hc).imp_right And.right⟩
  · cases hrevokes

/-- A reconnect between the refusal and the revocation. -/
def reconnectedMoves : List (Move Call) :=
  Sample.connected "lost" ++ Move.alone 1 (.refreshConnectionToken "id-1") 8 ++
    Sample.reconnecting 2 "y" ++ [.resume 2, .resume 1, .resume 1]

set_option maxRecDepth 10000 in
/-- The revocation then destroys the credential that the reconnect wrote, and its authorization. -/
theorem newer_credential_revoked : ∃ pool : CredentialPool, CredentialReachable pool ∧
    ∃ t ∈ pool.threads, (∃ e ∈ t.log, Claimed e "id-1" 1 "id-2") ∧
      (∃ f ∈ t.log, ∃ now, f.operation = .revokeProviderCredential "id-1" now ∧
        ∃ c ∈ f.before.credentials, c.id = "id-1" ∧ c.status = .active ∧ c.credentialVersion = 2) ∧
      (∀ c ∈ pool.store.credentials, c.status = .revoked) ∧
      ∀ a ∈ pool.store.authorizations, a.status = .revoked := by
  have hrun : (Sample.run reconnectedMoves).any (fun pool => pool.threads.any fun t =>
      (t.log.any fun e => match e.operation with
        | .claimProviderCredentialRefresh claim => claim.id == "id-1" &&
          claim.expectedVersion == 1 && claim.claimId == "id-2" &&
          e.before.credentials.any (·.claimable claim)
        | _ => false) && t.log.any revokesNewer &&
      pool.store.credentials.all (·.status == .revoked) &&
      pool.store.authorizations.all (·.status == .revoked)) = true := by
    decide +kernel
  obtain ⟨pool, hpool, hcheck⟩ := Sample.reachable_of_run hrun
  simp only [Bool.and_eq_true, List.any_eq_true, List.all_eq_true, beq_iff_eq] at hcheck
  obtain ⟨t, ht, ⟨⟨⟨e, he, hclaims⟩, f, hf, hrevokes⟩, hcredentials⟩, hauthorizations⟩ := hcheck
  refine ⟨pool, hpool, t, ht, ⟨e, he, ?_⟩, ⟨f, hf, ?_⟩, hcredentials, hauthorizations⟩
  · split at hclaims
    · rename_i claim hop
      simp only [Bool.and_eq_true, beq_iff_eq] at hclaims
      exact ⟨claim, hop, hclaims.1.1.1, hclaims.1.1.2, hclaims.1.2, hclaims.2⟩
    · cases hclaims
  · unfold revokesNewer at hrevokes
    split at hrevokes
    · rename_i id now hop
      simp only [Bool.and_eq_true, List.any_eq_true, beq_iff_eq] at hrevokes
      obtain ⟨rfl, c, hc, ⟨hid, hactive⟩, hversion⟩ := hrevokes
      exact ⟨now, hop, c, hc, hid, hactive, hversion⟩
    · cases hrevokes

end FlareAuth.Credentials
