import FlareAuth.Wallets

/-!
# Wallets and their accounts

Between the two writes of a call one of the two rows of a wallet is missing or left
over: the call owes the other write. As long as each second write still belongs to the
first one, and the reads of a link still hold when it writes, the rows match in every
store that no call owes anything to, and a call that throws has written nothing.
-/

namespace FlareAuth.Wallets

open Concurrent Procedure Relational

variable {userId : Id} {address accountId : String} {chainId : ℕ}

namespace Store

variable (s : Store)

def HasWallet (userId : Id) (address : String) (chainId : ℕ) : Prop :=
  ∃ w ∈ s.wallets, w.userId = userId ∧ w.address = address ∧ w.chainId = chainId

/-- The user has a `siwe` account of the text. -/
def HasAccount (userId : Id) (accountId : String) : Prop :=
  ∃ a ∈ s.accounts, a.userId = userId ∧ a.providerId = "siwe" ∧ a.accountId = accountId

/-- No row has the key of the unique index of wallets. -/
def WalletFree (address : String) (chainId : ℕ) : Prop :=
  ∀ w ∈ s.wallets, ¬(w.address = address ∧ w.chainId = chainId)

/-- No row has the key of the unique index of accounts. -/
def AccountFree (accountId : String) : Prop :=
  ∀ a ∈ s.accounts, ¬(a.providerId = "siwe" ∧ a.accountId = accountId)

/-- An address belongs to one user, on all chains, who has at most one primary wallet. -/
structure Owned : Prop where
  owner : ∀ w ∈ s.wallets, ∀ w' ∈ s.wallets, w.address = w'.address → w.userId = w'.userId
  primary : ∀ w ∈ s.wallets, ∀ w' ∈ s.wallets, w.userId = w'.userId → w.isPrimary = true →
    w'.isPrimary = true → w = w'

/-- Wallets and `siwe` accounts match. -/
def Matched : Prop :=
  ∀ userId address chainId, s.HasWallet userId address chainId ↔
    s.HasAccount userId (walletAccountId address chainId)

/-- The tables as they should be when no call is in flight. -/
structure Consistent : Prop where
  owned : s.Owned
  matched : s.Matched

end Store

/-- Rows of wallets and of accounts are the same. -/
def SameTables (s t : Store) : Prop := t.wallets = s.wallets ∧ t.accounts = s.accounts

def Adds (userId : Id) (address : String) (chainId : ℕ) (e : Event Store Operation) : Prop :=
  (∃ isPrimary, e.operation = .insertWallet userId address chainId isPrimary) ∧
    e.before.WalletFree address chainId

def Removes (userId : Id) (address : String) (chainId : ℕ) (e : Event Store Operation) : Prop :=
  e.operation = .deleteWallet userId address chainId ∧ e.before.HasWallet userId address chainId

/-- A call has added the wallet and has still to add its account. -/
def OwesAccount (userId : Id) (address : String) (chainId : ℕ) (log : Log Store Operation) : Prop :=
  (∃ e ∈ log, Adds userId address chainId e) ∧
    ∀ e ∈ log, e.operation ≠ .insertAccount userId (walletAccountId address chainId)

/-- A call has removed the wallet and has still to remove its account. -/
def OwesRemoval (userId : Id) (address : String) (chainId : ℕ) (log : Log Store Operation) : Prop :=
  (∃ e ∈ log, Removes userId address chainId e) ∧
    ∀ e ∈ log, e.operation ≠ .deleteAccount userId (walletAccountId address chainId)

/-- What the write of a call needs to find. -/
def Operation.Undisturbed (pool : WalletPool) (call : Call) : Operation → Prop
  | .insertWallet userId address chainId isPrimary => pool.store.WalletFree address chainId →
      (∀ w ∈ pool.store.wallets, w.address = address → w.userId = userId) ∧
      (isPrimary = true → ∀ w ∈ pool.store.wallets, w.userId = userId → w.isPrimary = false)
  | .insertAccount userId accountId => pool.store.AccountFree accountId ∧
      ∀ address chainId, accountId = walletAccountId address chainId →
        pool.store.HasWallet userId address chainId ∨
          ∃ t ∈ pool.threads, OwesRemoval userId address chainId t.log
  | .deleteWallet userId address chainId => pool.store.HasWallet userId address chainId →
      call = .unlinkWalletAddress userId (walletAccountId address chainId)
  | .deleteAccount userId accountId => pool.store.HasAccount userId accountId →
      ∀ address chainId, accountId = walletAccountId address chainId →
        pool.store.HasWallet userId address chainId →
          ∃ t ∈ pool.threads, OwesAccount userId address chainId t.log
  | _ => True

/-- No write finds the tables changed by another call in a way that matters to it. -/
def Undisturbed (pool : WalletPool) (m : Move Call) : Prop :=
  ∀ i t op, m = .resume i → pool.pending i = some (t, op) → op.Undisturbed pool t.call

section Tables

variable {s : Store} {isPrimary : Bool} {userId' : Id} {address' accountId' : String} {chainId' : ℕ}

theorem walletFree_iff : s.WalletFree address chainId ↔
    (s.findWalletAddress address chainId).isSome = false := by
  rw [Store.findWalletAddress, ← Bool.not_eq_true, List.find?_isSome]
  simp [Store.WalletFree]

theorem accountFree_iff : s.AccountFree accountId ↔
    (s.accounts.any fun a => a.providerId == "siwe" && a.accountId == accountId) = false := by
  simp [Store.AccountFree]

theorem insertWallet_of_free (h : s.WalletFree address chainId) :
    Repository.insertWallet userId address chainId isPrimary s =
      .ok (⟨"id-" ++ toString s.generated, userId, address, chainId, isPrimary⟩, { s with
        generated := s.generated + 1
        wallets := s.wallets ++
          [⟨"id-" ++ toString s.generated, userId, address, chainId, isPrimary⟩] }) := by
  rw [Repository.insertWallet, walletFree_iff.mp h]
  rfl

theorem insertWallet_of_taken (h : ¬s.WalletFree address chainId) :
    Repository.insertWallet userId address chainId isPrimary s =
      .error (.error "constraint failed") := by
  rw [walletFree_iff, Bool.not_eq_false] at h
  rw [Repository.insertWallet, h]
  rfl

theorem insertAccount_of_free (h : s.AccountFree accountId) :
    Repository.insertAccount userId accountId s = .ok ((), { s with
      generated := s.generated + 1
      accounts :=
        s.accounts ++ [⟨"id-" ++ toString s.generated, accountId, "siwe", userId⟩] }) := by
  rw [Repository.insertAccount, accountFree_iff.mp h]
  rfl

theorem insertAccount_of_taken (h : ¬s.AccountFree accountId) :
    Repository.insertAccount userId accountId s = .error (.error "constraint failed") := by
  rw [accountFree_iff, Bool.not_eq_false] at h
  rw [Repository.insertAccount, h]
  rfl

theorem apply_insertWallet_of_taken (h : ¬s.WalletFree address chainId) :
    apply (Operation.insertWallet userId address chainId isPrimary) s = s :=
  Batch.settle_of_error (insertWallet_of_taken h)

theorem apply_insertAccount_of_taken (h : ¬s.AccountFree accountId) :
    apply (Operation.insertAccount userId accountId) s = s :=
  Batch.settle_of_error (insertAccount_of_taken h)

theorem apply_insertWallet_of_free (h : s.WalletFree address chainId) :
    apply (Operation.insertWallet userId address chainId isPrimary) s = { s with
      generated := s.generated + 1
      wallets := s.wallets ++
        [⟨"id-" ++ toString s.generated, userId, address, chainId, isPrimary⟩] } :=
  Batch.settle_of_ok (insertWallet_of_free h)

theorem apply_insertAccount_of_free (h : s.AccountFree accountId) :
    apply (Operation.insertAccount userId accountId) s = { s with
      generated := s.generated + 1
      accounts := s.accounts ++ [⟨"id-" ++ toString s.generated, accountId, "siwe", userId⟩] } :=
  Batch.settle_of_ok (insertAccount_of_free h)

/-- Accounts are written by the operations on accounts only. -/
theorem accounts_insertWallet :
    (apply (Operation.insertWallet userId address chainId isPrimary) s).accounts = s.accounts := by
  by_cases h : s.WalletFree address chainId
  · rw [apply_insertWallet_of_free h]
  · rw [apply_insertWallet_of_taken h]

theorem wallets_insertAccount :
    (apply (Operation.insertAccount userId accountId) s).wallets = s.wallets := by
  by_cases h : s.AccountFree accountId
  · rw [apply_insertAccount_of_free h]
  · rw [apply_insertAccount_of_taken h]

theorem hasWallet_insertWallet (h : s.WalletFree address chainId) :
    (apply (Operation.insertWallet userId address chainId isPrimary) s).HasWallet userId' address'
      chainId' ↔ s.HasWallet userId' address' chainId' ∨
        userId = userId' ∧ address = address' ∧ chainId = chainId' := by
  rw [apply_insertWallet_of_free h]
  simp only [Store.HasWallet, List.mem_append, List.mem_singleton, or_and_right, exists_or,
    exists_eq_left]

theorem hasAccount_insertAccount (h : s.AccountFree accountId) :
    (apply (Operation.insertAccount userId accountId) s).HasAccount userId' accountId' ↔
      s.HasAccount userId' accountId' ∨ userId = userId' ∧ accountId = accountId' := by
  rw [apply_insertAccount_of_free h]
  simp only [Store.HasAccount, List.mem_append, List.mem_singleton, or_and_right, exists_or,
    exists_eq_left, true_and]

theorem hasWallet_deleteWallet :
    (apply (Operation.deleteWallet userId address chainId) s).HasWallet userId' address' chainId' ↔
      s.HasWallet userId' address' chainId' ∧
        ¬(userId' = userId ∧ address' = address ∧ chainId' = chainId) := by
  change (∃ w ∈ s.wallets.filter _, _) ↔ _
  constructor
  · rintro ⟨w, hw, rfl, rfl, rfl⟩
    obtain ⟨hmem, hkept⟩ := List.mem_filter.mp hw
    refine ⟨⟨w, hmem, rfl, rfl, rfl⟩, ?_⟩
    rintro ⟨huser, haddress, hchain⟩
    simp [huser, haddress, hchain] at hkept
  · rintro ⟨⟨w, hw, rfl, rfl, rfl⟩, hother⟩
    refine ⟨w, List.mem_filter.mpr ⟨hw, ?_⟩, rfl, rfl, rfl⟩
    rw [Bool.not_eq_true', ← Bool.not_eq_true]
    simpa [and_assoc] using hother

theorem hasAccount_deleteAccount :
    (apply (Operation.deleteAccount userId accountId) s).HasAccount userId' accountId' ↔
      s.HasAccount userId' accountId' ∧ ¬(userId' = userId ∧ accountId' = accountId) := by
  change (∃ a ∈ s.accounts.filter _, _) ↔ _
  constructor
  · rintro ⟨a, ha, rfl, hprovider, rfl⟩
    obtain ⟨hmem, hkept⟩ := List.mem_filter.mp ha
    refine ⟨⟨a, hmem, rfl, hprovider, rfl⟩, ?_⟩
    rintro ⟨huser, haccount⟩
    simp [huser, haccount, hprovider] at hkept
  · rintro ⟨⟨a, ha, rfl, hprovider, rfl⟩, hother⟩
    refine ⟨a, List.mem_filter.mpr ⟨ha, ?_⟩, rfl, hprovider, rfl⟩
    rw [Bool.not_eq_true', ← Bool.not_eq_true]
    simpa [hprovider] using hother

/-- A write that finds no other owner and no other primary wallet keeps both unique. -/
theorem owned_apply {op : Operation} (h : s.Owned)
    (hinsert : ∀ userId address chainId isPrimary, op = .insertWallet userId address chainId
      isPrimary → s.WalletFree address chainId →
        (∀ w ∈ s.wallets, w.address = address → w.userId = userId) ∧
        (isPrimary = true → ∀ w ∈ s.wallets, w.userId = userId → w.isPrimary = false)) :
    (apply op s).Owned := by
  cases op with
  | insertWallet userId address chainId isPrimary =>
    by_cases hfree : s.WalletFree address chainId
    · obtain ⟨howner, hprimary⟩ := hinsert _ _ _ _ rfl hfree
      rw [apply_insertWallet_of_free hfree]
      constructor
      · intro w hw w' hw' haddress
        rcases List.mem_append.mp hw with hw | hw <;> rcases List.mem_append.mp hw' with hw' | hw'
        · exact h.owner w hw w' hw' haddress
        · obtain rfl := List.mem_singleton.mp hw'
          exact howner w hw haddress
        · obtain rfl := List.mem_singleton.mp hw
          exact (howner w' hw' haddress.symm).symm
        · rw [List.mem_singleton.mp hw, List.mem_singleton.mp hw']
      · intro w hw w' hw' huser hp hp'
        rcases List.mem_append.mp hw with hw | hw <;> rcases List.mem_append.mp hw' with hw' | hw'
        · exact h.primary w hw w' hw' huser hp hp'
        · obtain rfl := List.mem_singleton.mp hw'
          exact absurd hp (by rw [hprimary hp' w hw huser]; exact Bool.false_ne_true)
        · obtain rfl := List.mem_singleton.mp hw
          exact absurd hp' (by rw [hprimary hp w' hw' huser.symm]; exact Bool.false_ne_true)
        · rw [List.mem_singleton.mp hw, List.mem_singleton.mp hw']
    · rw [apply_insertWallet_of_taken hfree]
      exact h
  | insertAccount userId accountId =>
    have hrows : (apply (Operation.insertAccount userId accountId) s).wallets = s.wallets :=
      wallets_insertAccount
    constructor
    · rw [hrows]
      exact h.owner
    · rw [hrows]
      exact h.primary
  | deleteWallet userId address chainId =>
    refine ⟨fun w hw w' hw' => ?_, fun w hw w' hw' => ?_⟩
    · exact h.owner w (List.mem_of_mem_filter hw) w' (List.mem_of_mem_filter hw')
    · exact h.primary w (List.mem_of_mem_filter hw) w' (List.mem_of_mem_filter hw')
  | deleteAccount userId accountId => exact ⟨h.owner, h.primary⟩
  | _ => exact h

end Tables

section Contract

variable {α : Type} {log : Log Store Operation} {call : Call} {r : Except Failure α}

/-- The second write of a call comes after the first one. -/
def Ordered (log : Log Store Operation) (_ : Store) : Operation → Prop
  | .insertWallet _ _ _ _ => ∀ e ∈ log, ∀ userId accountId,
      e.operation ≠ .insertAccount userId accountId
  | .deleteWallet _ _ _ => ∀ e ∈ log, ∀ userId accountId,
      e.operation ≠ .deleteAccount userId accountId
  | _ => True

/-- A call that has ended owes nothing; one that has thrown has written nothing, or its second
write was refused. -/
structure Settled (call : Call) (log : Log Store Operation) (r : Except Failure α) : Prop where
  added : ∀ e ∈ log, ∀ userId address chainId, Adds userId address chainId e →
    ∃ e' ∈ log, e'.operation = .insertAccount userId (walletAccountId address chainId)
  removed : ∀ e ∈ log, ∀ userId address chainId,
    e.operation = .deleteWallet userId address chainId →
    ∀ accountId, call = .unlinkWalletAddress userId accountId →
      ∃ e' ∈ log, e'.operation = .deleteAccount userId accountId
  thrown : ∀ failure, r = .error failure →
    (∀ e ∈ log, SameTables e.before (apply e.operation e.before)) ∨
      ∃ e ∈ log, ∃ userId accountId, e.operation = .insertAccount userId accountId ∧
        ¬e.before.AccountFree accountId

def Operation.IsRead : Operation → Prop
  | .findWalletAddress _ _ | .findAnyWalletAddress _ | .countWallets _ => True
  | _ => False

theorem settled_of_reads (h : ∀ e ∈ log, e.operation.IsRead) : Settled call log r := by
  refine ⟨?_, ?_, fun _ _ => .inl fun e he => ?_⟩
  · rintro e he userId address chainId ⟨⟨isPrimary, hop⟩, -⟩
    have hread := h e he
    rw [hop] at hread
    exact hread.elim
  · intro e he userId address chainId hop
    have hread := h e he
    rw [hop] at hread
    exact hread.elim
  · have hread := h e he
    obtain ⟨op, s⟩ := e
    cases op with
    | findWalletAddress | findAnyWalletAddress | countWallets => exact ⟨rfl, rfl⟩
    | _ => exact hread.elim

theorem reads_cons {e : Event Store Operation} (he : e.operation.IsRead)
    (h : ∀ d ∈ log, d.operation.IsRead) : ∀ d ∈ e :: log, d.operation.IsRead :=
  List.forall_mem_cons.mpr ⟨he, h⟩

theorem not_written_of_reads (h : ∀ e ∈ log, e.operation.IsRead) {e : Event Store Operation}
    (he : e ∈ log) {op : Operation} (hop : ¬op.IsRead) : e.operation ≠ op := by
  rintro rfl
  exact hop (h e he)

/-- A link that could not insert the wallet. -/
theorem settled_of_taken {s : Store} {isPrimary : Bool} {failure : Failure}
    (hreads : ∀ e ∈ log, e.operation.IsRead) (htaken : ¬s.WalletFree address chainId) :
    Settled call (⟨.insertWallet userId address chainId isPrimary, s⟩ :: log)
      (.error failure : Except Failure α) := by
  have hold : Settled call log (.error failure : Except Failure α) := settled_of_reads hreads
  refine ⟨?_, ?_, fun _ _ => .inl ?_⟩
  · rintro e he userId' address' chainId' ⟨⟨isPrimary', hop⟩, hfree⟩
    rcases List.mem_cons.mp he with rfl | he
    · cases hop
      exact absurd hfree htaken
    · exact absurd hop (not_written_of_reads hreads he id)
  · intro e he userId' address' chainId' hop
    rcases List.mem_cons.mp he with rfl | he
    · cases hop
    · exact absurd hop (not_written_of_reads hreads he id)
  · intro e he
    rcases List.mem_cons.mp he with rfl | he
    · rw [apply_insertWallet_of_taken htaken]
      exact ⟨rfl, rfl⟩
    · rcases hold.thrown failure rfl with hsame | ⟨d, hd, userId', accountId, hop, -⟩
      · exact hsame e he
      · exact absurd hop (not_written_of_reads hreads hd id)

/-- A link that has tried to insert the account. -/
theorem settled_of_inserted {s s' : Store} {isPrimary : Bool}
    (hreads : ∀ e ∈ log, e.operation.IsRead)
    (hr : ∀ failure, r = .error failure → ¬s'.AccountFree (walletAccountId address chainId)) :
    Settled call (⟨.insertAccount userId (walletAccountId address chainId), s'⟩ ::
      ⟨.insertWallet userId address chainId isPrimary, s⟩ :: log) r := by
  refine ⟨?_, ?_, fun failure hfailure => .inr ?_⟩
  · rintro e he userId' address' chainId' ⟨⟨isPrimary', hop⟩, -⟩
    rcases List.mem_cons.mp he with rfl | he
    · cases hop
    · rcases List.mem_cons.mp he with rfl | he
      · cases hop
        exact ⟨_, List.mem_cons_self, rfl⟩
      · exact absurd hop (not_written_of_reads hreads he id)
  · intro e he userId' address' chainId' hop
    rcases List.mem_cons.mp he with rfl | he
    · cases hop
    · rcases List.mem_cons.mp he with rfl | he
      · cases hop
      · exact absurd hop (not_written_of_reads hreads he id)
  · exact ⟨_, List.mem_cons_self, userId, _, rfl, hr failure hfailure⟩

theorem obeys_linkWalletAddress (call : Call) (userId : Id) (address : String) (chainId : ℕ) :
    (linkWalletAddress userId address chainId).Obeys Ordered (Settled call) [] := by
  unfold linkWalletAddress
  intro s
  refine ⟨trivial, ?_⟩
  have hfirst : ∀ e ∈ [(⟨.findWalletAddress address chainId, s⟩ : Event Store Operation)],
      e.operation.IsRead := by simp [Operation.IsRead]
  cases hexisting : s.findWalletAddress address chainId with
  | some existing =>
    have hanswer : (if existing.userId ≠ userId then
          fail (badRequest "This wallet is already linked to another account.")
        else return existing : Linking WalletAddress).Obeys Ordered (Settled call)
          [⟨.findWalletAddress address chainId, s⟩] := by
      split
      · exact settled_of_reads hfirst
      · exact settled_of_reads hfirst
    dsimp only
    rw [hexisting]
    exact hanswer
  | none =>
    dsimp only
    rw [hexisting]
    intro s₂
    refine ⟨trivial, ?_⟩
    have hsecond := reads_cons (e := ⟨.findAnyWalletAddress address, s₂⟩) trivial hfirst
    refine obeys_require_bind (fun _ => ?_) fun _ => settled_of_reads hsecond
    intro s₃
    refine ⟨trivial, ?_⟩
    have hthird := reads_cons (e := ⟨.countWallets userId, s₃⟩) trivial hsecond
    intro s₄
    refine ⟨fun e he userId' accountId => not_written_of_reads hthird he id, ?_⟩
    refine obeys_ofExcept_bind (fun failure hfailure => ?_) fun created _ => ?_
    · refine settled_of_taken hthird fun hfree => ?_
      rw [Batch.outcome, insertWallet_of_free hfree] at hfailure
      cases hfailure
    · intro s₅
      refine ⟨trivial, ?_⟩
      refine obeys_ofExcept_bind (fun failure hfailure => ?_) fun _ _ => ?_
      · refine settled_of_inserted hthird fun _ _ hfree => ?_
        rw [Batch.outcome, insertAccount_of_free hfree] at hfailure
        cases hfailure
      · exact settled_of_inserted hthird fun _ h => nomatch h

variable [Numbers]

theorem program_contract (c : Call) : c.program.Obeys Ordered (Settled c) [] := by
  cases c with
  | linkWalletAddress userId address chainId =>
    refine (obeys_linkWalletAddress (.linkWalletAddress userId address chainId) userId
      address chainId).bind ?_ ?_
    · intro log created _ h
      exact ⟨h.added, h.removed, fun _ hfailure => nomatch hfailure⟩
    · intro log failure h
      exact ⟨h.added, h.removed, fun _ _ => h.thrown failure rfl⟩
  | unlinkWalletAddress userId accountId =>
    refine obeys_orThrow_bind (fun parsed _ => ?_) fun _ => settled_of_reads fun e he => nomatch he
    obtain ⟨address, chainId⟩ := parsed
    intro s
    refine ⟨(fun e he => nomatch he), ?_⟩
    refine obeys_ofExcept_bind (fun _ hfailure => nomatch hfailure) fun _ _ => ?_
    intro s'
    refine ⟨trivial, ?_⟩
    refine ⟨?_, ?_, fun _ hfailure => nomatch hfailure⟩
    · rintro e he userId' address' chainId' ⟨⟨isPrimary, hop⟩, -⟩
      rcases List.mem_cons.mp he with rfl | he
      · cases hop
      · rw [List.mem_singleton.mp he] at hop
        cases hop
    · intro e he userId' address' chainId' hop accountId' hcall
      obtain ⟨rfl, rfl⟩ := Call.unlinkWalletAddress.inj hcall
      exact ⟨_, List.mem_cons_self, rfl⟩

end Contract

end FlareAuth.Wallets
