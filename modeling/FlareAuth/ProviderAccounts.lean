import FlareAuth.ProviderCredentials

/-!
# Who owns an account at a provider

A completed intent asks whether another user has connected the account, and
writes its connection some operations later. The unique index of the table is
about the connector and the owner, not about the account.
-/

namespace FlareAuth.Credentials

open Concurrent Procedure Relational

/-- An active connection of a user to the account with the subject at the provider. -/
structure ProviderAccount.Claims (a : ProviderAccount) (connectors : List (Id × String))
    (providerId externalSubject : String) : Prop where
  subject : a.externalSubject = externalSubject
  active : a.status = .active
  user : a.owner.userId.isSome = true
  provider : (a.connectorId, providerId) ∈ connectors

/-- No account at a provider has two active connections of users. -/
def Store.OneUserEach (s : Store) : Prop :=
  ∀ a ∈ s.accounts, ∀ b ∈ s.accounts, ∀ providerId externalSubject,
    a.Claims s.connectorProviders providerId externalSubject →
    b.Claims s.connectorProviders providerId externalSubject → a = b

/-- The primary key of the connections, and their unique index on the connector and the owner. -/
structure Store.Keys (s : Store) : Prop where
  ids : (s.accounts.map (·.id)).Nodup
  owners : (s.accounts.map fun a => (a.connectorId, a.owner)).Nodup

/-- Each connector stays with its provider, and no provider has two connectors. -/
structure ConnectorsOf (providerOf : Id → String) (connectors : List (Id × String)) : Prop where
  provider : ∀ c ∈ connectors, c.2 = providerOf c.1
  unique : (connectors.map (·.2)).Nodup

structure Store.AccountsKept (providerOf : Id → String) (s : Store) : Prop where
  keys : s.Keys
  connectors : ConnectorsOf providerOf s.connectorProviders
  users : s.OneUserEach

/-- What administration may do to the connectors: those with a connection are kept. -/
def Operation.KeepsConnectors (providerOf : Id → String) (s : Store) : Operation → Prop
  | .administer _ connectors => ConnectorsOf providerOf connectors ∧
    ∀ a ∈ s.accounts, ∀ providerId, (a.connectorId, providerId) ∈ connectors ↔
      (a.connectorId, providerId) ∈ s.connectorProviders
  | _ => True

/-- The check that a completion made before still passes when it writes the connection. -/
def ProviderAccount.Unclaimed (input : ProviderAccount) (s : Store) : Prop :=
  ∀ providerId, (input.connectorId, providerId) ∈ s.connectorProviders →
    (s.findActiveUserProviderConnectionByProviderSubject providerId input.externalSubject).all
      (fun a => a.owner.userId = input.owner.userId) = true

def Operation.Unclaimed (s : Store) : Operation → Prop
  | .insertProviderConnection input => input.Unclaimed s
  | .updateProviderConnection input => input.Unclaimed s
  | _ => True

section Step

variable {s t : Store} {a b input : ProviderAccount} {providerOf : Id → String}
  {connectors : List (Id × String)} {providerId externalSubject : String}

theorem ConnectorsOf.eq_of_mem (h : ConnectorsOf providerOf connectors) {c d : Id}
    (hc : (c, providerId) ∈ connectors) (hd : (d, providerId) ∈ connectors) : c = d := by
  have heq : (c, providerId) = (d, providerId) := eq_of_key_eq h.unique hc hd rfl
  exact congrArg Prod.fst heq

theorem Store.Keys.eq_of_owner (h : s.Keys) (ha : a ∈ s.accounts) (hb : b ∈ s.accounts)
    (hconnector : a.connectorId = b.connectorId) (howner : a.owner = b.owner) : a = b :=
  eq_of_key_eq h.owners ha hb (Prod.ext hconnector howner)

theorem owner_of_userId {o o' : Owner} (hsome : o.userId.isSome = true)
    (h : o.userId = o'.userId) : o = o' := by
  cases o with
  | user id =>
    cases o' with
    | user id' => exact congrArg Owner.user (Option.some.inj h)
    | organization id' => cases h
  | organization id => cases hsome

/-- The lookup of the check finds the connection that claims the account. -/
theorem findActive_of_claims (h : s.OneUserEach) (ha : a ∈ s.accounts)
    (hclaims : a.Claims s.connectorProviders providerId externalSubject) :
    s.findActiveUserProviderConnectionByProviderSubject providerId externalSubject = some a := by
  cases hfind : s.findActiveUserProviderConnectionByProviderSubject providerId externalSubject with
  | none =>
    have hnot := List.find?_eq_none.mp hfind a ha
    simp only [decide_eq_true_eq] at hnot
    exact absurd ⟨hclaims.subject, hclaims.active, hclaims.user, hclaims.provider⟩ hnot
  | some b =>
    have hfound := List.find?_some hfind
    simp only [decide_eq_true_eq] at hfound
    obtain ⟨hsubject, hactive, huser, hprovider⟩ := hfound
    have hb : b ∈ s.accounts := List.mem_of_find?_eq_some hfind
    exact congrArg some (h b hb a ha _ _ ⟨hsubject, hactive, huser, hprovider⟩ hclaims)

/-- Whoever claims the account of a connection that is about to be written is its row. -/
theorem Store.AccountsKept.same_row (h : s.AccountsKept providerOf) (hfree : input.Unclaimed s)
    (ha : a ∈ s.accounts) (hclaims : a.Claims s.connectorProviders providerId input.externalSubject)
    (hprovider : (input.connectorId, providerId) ∈ s.connectorProviders) :
    a.connectorId = input.connectorId ∧ a.owner = input.owner := by
  have hfound := findActive_of_claims h.users ha hclaims
  have hall := hfree providerId hprovider
  rw [hfound] at hall
  have huser : a.owner.userId = input.owner.userId := by simpa using hall
  exact ⟨h.connectors.eq_of_mem hclaims.provider hprovider, owner_of_userId hclaims.user huser⟩

theorem accountsKept_insert (h : s.AccountsKept providerOf) (hfree : input.Unclaimed s) :
    ((Repository.insertProviderConnection input).settle s).AccountsKept providerOf := by
  by_cases hconflict : (s.accounts.any fun a =>
      a.id == input.id || (a.connectorId == input.connectorId && a.owner == input.owner)) = true
  · have hsame : (Repository.insertProviderConnection input).settle s = s := by
      simp only [Batch.settle, Repository.insertProviderConnection, if_pos hconflict]
    rwa [hsame]
  · have hinsert : (Repository.insertProviderConnection input).settle s =
        { s with accounts := s.accounts ++ [input] } := by
      simp only [Batch.settle, Repository.insertProviderConnection, if_neg hconflict]
    have hnew : ∀ a ∈ s.accounts, a.id ≠ input.id ∧
        ¬(a.connectorId = input.connectorId ∧ a.owner = input.owner) := by
      intro a ha
      have hnot : ¬(a.id == input.id || (a.connectorId == input.connectorId &&
          a.owner == input.owner)) = true := fun hany =>
        hconflict (List.any_eq_true.mpr ⟨a, ha, hany⟩)
      simpa using hnot
    have hother : ∀ a ∈ s.accounts, ∀ providerId externalSubject,
        a.Claims s.connectorProviders providerId externalSubject →
        ¬input.Claims s.connectorProviders providerId externalSubject := by
      rintro a ha providerId _ hclaims ⟨rfl, _, _, hprovider⟩
      exact (hnew a ha).2 (h.same_row hfree ha hclaims hprovider)
    rw [hinsert]
    refine ⟨⟨?_, ?_⟩, h.connectors, ?_⟩
    · exact nodup_map_append_singleton h.keys.ids fun a ha => (hnew a ha).1
    · exact nodup_map_append_singleton h.keys.owners fun a ha heq =>
        (hnew a ha).2 (Prod.mk.inj heq)
    · intro a ha b hb providerId externalSubject hclaims hclaims'
      rcases List.mem_append.mp ha with hold | hnewest
      · rcases List.mem_append.mp hb with hold' | hnewest'
        · exact h.users a hold b hold' _ _ hclaims hclaims'
        · obtain rfl := List.mem_singleton.mp hnewest'
          exact absurd hclaims' (hother a hold _ _ hclaims)
      · obtain rfl := List.mem_singleton.mp hnewest
        rcases List.mem_append.mp hb with hold' | hnewest'
        · exact absurd hclaims (hother b hold' _ _ hclaims')
        · exact (List.mem_singleton.mp hnewest').symm

/-- An update of the selected rows that keeps their keys, and claims for no selected row what an
unselected one has. -/
theorem accountsKept_update {p : ProviderAccount → Bool} {f : ProviderAccount → ProviderAccount}
    (h : s.AccountsKept providerOf) (hid : ∀ a, (f a).id = a.id)
    (howner : ∀ a, (f a).connectorId = a.connectorId ∧ (f a).owner = a.owner)
    (hone : ∀ a ∈ s.accounts, ∀ b ∈ s.accounts, p a = true → p b = true → ∀ providerId subject,
      (f a).Claims s.connectorProviders providerId subject →
      (f b).Claims s.connectorProviders providerId subject → a = b)
    (hother : ∀ a ∈ s.accounts, ∀ b ∈ s.accounts, p a = true → ∀ providerId subject,
      (f a).Claims s.connectorProviders providerId subject →
      b.Claims s.connectorProviders providerId subject → p b = true) :
    ({ s with accounts := updateWhere p f s.accounts } : Store).AccountsKept providerOf := by
  refine ⟨⟨?_, ?_⟩, h.connectors, ?_⟩
  · exact nodup_map_updateWhere (fun a _ => hid a) h.keys.ids
  · exact nodup_map_updateWhere (fun a _ => Prod.ext (howner a).1 (howner a).2) h.keys.owners
  · intro a' ha' b' hb' providerId subject hclaims hclaims'
    obtain ⟨a, ha, rfl⟩ := mem_updateWhere.mp ha'
    obtain ⟨b, hb, rfl⟩ := mem_updateWhere.mp hb'
    by_cases hpa : p a = true
    · rw [if_pos hpa] at hclaims ⊢
      by_cases hpb : p b = true
      · rw [if_pos hpb] at hclaims' ⊢
        rw [hone a ha b hb hpa hpb _ _ hclaims hclaims']
      · rw [if_neg hpb] at hclaims'
        exact absurd (hother a ha b hb hpa _ _ hclaims hclaims') hpb
    · rw [if_neg hpa] at hclaims ⊢
      by_cases hpb : p b = true
      · rw [if_pos hpb] at hclaims'
        exact absurd (hother b hb a ha hpb _ _ hclaims' hclaims) hpa
      · rw [if_neg hpb] at hclaims' ⊢
        exact h.users a ha b hb _ _ hclaims hclaims'

theorem accountsKept_updateProviderConnection (h : s.AccountsKept providerOf)
    (hfree : input.Unclaimed s) :
    ((Repository.updateProviderConnection input).settle s).AccountsKept providerOf := by
  apply accountsKept_update h
  · exact fun _ => rfl
  · exact fun _ => ⟨rfl, rfl⟩
  · intro a ha b hb hpa hpb _ _ _ _
    simp only [Bool.and_eq_true, beq_iff_eq] at hpa hpb
    exact h.keys.eq_of_owner ha hb (hpa.1.trans hpb.1.symm) (hpa.2.trans hpb.2.symm)
  · rintro a ha b hb hpa providerId _ ⟨rfl, _, _, hprovider⟩ hclaims
    simp only [Bool.and_eq_true, beq_iff_eq] at hpa ⊢
    change (a.connectorId, providerId) ∈ s.connectorProviders at hprovider
    rw [hpa.1] at hprovider
    exact h.same_row hfree hb hclaims hprovider

theorem accountsKept_revokeProviderConnection (id ownerUserId : Id)
    (h : s.AccountsKept providerOf) :
    ((Repository.revokeProviderConnection id ownerUserId).settle s).AccountsKept providerOf := by
  apply accountsKept_update h
  · exact fun _ => rfl
  · exact fun _ => ⟨rfl, rfl⟩
  · intro a _ b _ _ _ _ _ hclaims _
    cases hclaims.active
  · intro a _ b _ _ _ _ hclaims _
    cases hclaims.active

/-- The tables that decide who owns an account are as before. -/
def Store.SameAccounts (s t : Store) : Prop :=
  t.accounts = s.accounts ∧ t.connectorProviders = s.connectorProviders

theorem Store.AccountsKept.of_same (h : s.AccountsKept providerOf) (hsame : s.SameAccounts t) :
    t.AccountsKept providerOf := by
  obtain ⟨haccounts, hconnectors⟩ := hsame
  refine ⟨⟨?_, ?_⟩, ?_, ?_⟩
  · rw [haccounts]
    exact h.keys.ids
  · rw [haccounts]
    exact h.keys.owners
  · rw [hconnectors]
    exact h.connectors
  · intro a ha b hb
    rw [haccounts] at ha hb
    rw [hconnectors]
    exact h.users a ha b hb

theorem sameAccounts_refl (s : Store) : s.SameAccounts s := ⟨rfl, rfl⟩

theorem sameAccounts_trans (s t u : Store) (h : s.SameAccounts t) (h' : t.SameAccounts u) :
    s.SameAccounts u := ⟨h'.1.trans h.1, h'.2.trans h.2⟩

theorem sameAccounts_insertCredential (input : Credential) :
    (Repository.insertCredential input).Within Store.SameAccounts := by
  intro s _ t h
  unfold Repository.insertCredential at h
  split at h
  · cases h
  · cases h
    exact ⟨rfl, rfl⟩

theorem sameAccounts_createResourceAuthorization (authorization : ProviderResourceAuthorization)
    (credential : Credential) :
    (Repository.createResourceAuthorization authorization credential).Within
      Store.SameAccounts := by
  refine .bind sameAccounts_trans (.read sameAccounts_refl _) fun active => ?_
  refine .bind sameAccounts_trans (.read sameAccounts_refl _) fun taken => ?_
  have hinsert : ∀ f : Store → Store, (∀ s : Store, s.SameAccounts (f s)) →
      ((Batch.modify f : StoreBatch Unit) >>=
        fun _ => Repository.insertCredential credential).Within
        Store.SameAccounts := fun f hf =>
    .bind sameAccounts_trans (.modify hf) fun _ => sameAccounts_insertCredential _
  dsimp only
  split
  · exact .bind sameAccounts_trans (fun _ _ _ h => nomatch h) fun _ => hinsert _ fun s => by
      split <;> exact ⟨rfl, rfl⟩
  · refine hinsert _ fun s => ?_
    split <;> exact ⟨rfl, rfl⟩

theorem sameAccounts_upsertProviderCredential (authorizationId : Id) (input : Credential) :
    (Repository.upsertProviderCredential authorizationId input).Within Store.SameAccounts := by
  refine .bind sameAccounts_trans (.modify fun _ => ⟨rfl, rfl⟩) fun _ => ?_
  refine .bind sameAccounts_trans (.read sameAccounts_refl _) fun existing => ?_
  split
  · exact .modify fun _ => ⟨rfl, rfl⟩
  · exact sameAccounts_insertCredential _

/-- Every operation keeps the connections apart, if the check of a completion holds when it
writes. -/
theorem accountsKept_perform {op : Operation} (h : s.AccountsKept providerOf)
    (hfree : op.Unclaimed s) (hconnectors : op.KeepsConnectors providerOf s) :
    (op.perform s).AccountsKept providerOf := by
  cases op with
  | insertProviderConnection input => exact accountsKept_insert h hfree
  | updateProviderConnection input => exact accountsKept_updateProviderConnection h hfree
  | revokeProviderConnection id ownerUserId =>
    exact accountsKept_revokeProviderConnection id ownerUserId h
  | administer resources connectors =>
    obtain ⟨hprovider, hkept⟩ := hconnectors
    refine ⟨⟨h.keys.ids, h.keys.owners⟩, hprovider, ?_⟩
    intro a ha b hb providerId externalSubject hclaims hclaims'
    refine h.users a ha b hb providerId externalSubject ?_ ?_
    · exact ⟨hclaims.subject, hclaims.active, hclaims.user, (hkept a ha _).mp hclaims.provider⟩
    · exact ⟨hclaims'.subject, hclaims'.active, hclaims'.user, (hkept b hb _).mp hclaims'.provider⟩
  | createResourceAuthorization authorization credential =>
    exact h.of_same ((sameAccounts_createResourceAuthorization _ _).settle sameAccounts_refl s)
  | upsertProviderCredential authorizationId input =>
    exact h.of_same ((sameAccounts_upsertProviderCredential _ _).settle sameAccounts_refl s)
  | _ => exact h.of_same ⟨rfl, rfl⟩

end Step

section Runs

variable [Locale] {pool : CredentialPool} (providerOf : Id → String)

/-- The move writes no connection to an account which another user has claimed since the check. -/
def Rechecked (pool : CredentialPool) (m : Move Call) : Prop :=
  ∀ i t op, m = .resume i → pool.pending i = some (t, op) →
    op.Unclaimed pool.store ∧ op.KeepsConnectors providerOf pool.store

abbrev RecheckedReachable : CredentialPool → Prop :=
  Reachable Call.program (·.AccountsKept providerOf) (Rechecked providerOf)

variable {providerOf}

theorem accountsKept_of_reachable (h : RecheckedReachable providerOf pool) :
    pool.store.AccountsKept providerOf :=
  h.keeps (fun _ hs => hs) fun _ i t op _ hok hpending hkept =>
    accountsKept_perform hkept (hok i t op rfl hpending).1 (hok i t op rfl hpending).2

/-- One account at a provider has one user, in every run whose completions would still pass their
check when they write. -/
theorem one_account_one_user (h : RecheckedReachable providerOf pool) : pool.store.OneUserEach :=
  (accountsKept_of_reachable h).users

end Runs

namespace Sample

/-- Two users with a pending intent each. -/
def rivals : Store :=
  { store with intents := [intent "i", { intent "j" with owner := .user "v" }] }

theorem rivals_kept : rivals.AccountsKept fun _ => "p" where
  keys := ⟨List.nodup_nil, List.nodup_nil⟩
  connectors := ⟨by decide, by decide⟩
  users _ ha := nomatch ha

end Sample

def recheckedCheck (pool : CredentialPool) : Move Call → Bool
  | .start _ => true
  | .resume i =>
    match pool.pending i with
    | some (_, .insertProviderConnection input) => pool.store.accounts.isEmpty &&
      input.owner.userId.isSome
    | some (_, .updateProviderConnection _) => false
    | some (_, .administer _ _) => false
    | _ => true

theorem rechecked_of_check {pool : CredentialPool} {m : Move Call}
    (h : recheckedCheck pool m = true) : Rechecked (fun _ => "p") pool m := by
  rintro i t op rfl hpending
  rw [recheckedCheck, hpending] at h
  cases op with
  | insertProviderConnection input =>
    simp only [Bool.and_eq_true, List.isEmpty_iff] at h
    refine ⟨fun providerId _ => ?_, trivial⟩
    rw [Store.findActiveUserProviderConnectionByProviderSubject, h.1]
    rfl
  | updateProviderConnection | administer => cases h
  | _ => exact ⟨trivial, trivial⟩

/-- The two users complete their intents for one account, the second after the first. -/
def successiveMoves : List (Move Call) :=
  Move.alone 0 (.completeResourceConnectionIntent "i" "x") 15 ++
    Move.alone 1 (.completeResourceConnectionIntent "j" "x") 9

theorem one_account_one_user_sample : ∃ pool : CredentialPool,
    (∃ a ∈ pool.store.accounts, a.status = .active ∧ a.owner = .user "u") ∧
      pool.threads.length = 2 ∧ pool.store.OneUserEach := by
  have hrun : ((Pool.initial Sample.rivals).run Call.program recheckedCheck successiveMoves).any
      (fun pool => (pool.store.accounts.any fun a => a.status == .active && a.owner == .user "u") &&
        pool.threads.length == 2) = true := by
    decide +kernel
  obtain ⟨pool, hpool, hcheck⟩ := (Option.any_eq_true _ _).mp hrun
  have hreach : RecheckedReachable (fun _ => "p") pool :=
    Reachable.of_run (fun _ _ => rechecked_of_check) (.initial Sample.rivals_kept) hpool
  simp only [Bool.and_eq_true, List.any_eq_true, beq_iff_eq] at hcheck
  exact ⟨pool, hcheck.1, hcheck.2, one_account_one_user hreach⟩

/-- The second user completes between the check and the write of the first. -/
def overlappingCompletions : List (Move Call) :=
  Move.alone 0 (.completeResourceConnectionIntent "i" "x") 9 ++
    Move.alone 1 (.completeResourceConnectionIntent "j" "x") 15 ++ List.replicate 6 (.resume 0)

set_option maxRecDepth 10000 in
/-- Both completions then return, and both users have the account. -/
theorem account_of_two_users : ∃ pool : CredentialPool, CredentialReachable pool ∧
    (∀ t ∈ pool.threads, t.rest.result = some (.ok ())) ∧ pool.threads.length = 2 ∧
    ∃ a ∈ pool.store.accounts, ∃ b ∈ pool.store.accounts,
      a.Claims pool.store.connectorProviders "p" "subject" ∧
      b.Claims pool.store.connectorProviders "p" "subject" ∧ a.owner ≠ b.owner := by
  have hrun : ((Pool.initial Sample.rivals).run Call.program (fun _ _ => true)
      overlappingCompletions).any (fun pool => (pool.threads.all fun t => t.rest.result.any fun r =>
        r.isOk) && pool.threads.length == 2 && pool.store.accounts.any fun a =>
        pool.store.accounts.any fun b => a.externalSubject == "subject" && a.status == .active &&
          a.owner.userId.isSome && (pool.store.connectorProviders.contains (a.connectorId, "p")) &&
          (b.externalSubject == "subject" && b.status == .active && b.owner.userId.isSome &&
            (pool.store.connectorProviders.contains (b.connectorId, "p")) && a.owner != b.owner)) =
      true := by
    decide +kernel
  obtain ⟨pool, hpool, hcheck⟩ := (Option.any_eq_true _ _).mp hrun
  have hreach : CredentialReachable pool :=
    Reachable.of_run (fun _ _ _ => trivial) (.initial ⟨rfl, rfl⟩) hpool
  simp only [Bool.and_eq_true, List.all_eq_true, List.any_eq_true, beq_iff_eq, bne_iff_ne,
    List.contains_iff_mem] at hcheck
  obtain ⟨⟨hreturned, hlength⟩, a, ha, b, hb, hclaims, hclaims', hne⟩ := hcheck
  refine ⟨pool, hreach, fun t ht => ?_, hlength, a, ha, b, hb, ?_, ?_, hne⟩
  · cases hresult : t.rest.result with
    | none =>
      have hok := hreturned t ht
      simp [hresult] at hok
    | some r =>
      cases r with
      | ok x => rfl
      | error e =>
        have hok := hreturned t ht
        simp [hresult, Except.isOk, Except.toBool] at hok
  · exact ⟨hclaims.1.1.1, hclaims.1.1.2, hclaims.1.2, hclaims.2⟩
  · exact ⟨hclaims'.1.1.1, hclaims'.1.1.2, hclaims'.1.2, hclaims'.2⟩

end FlareAuth.Credentials
