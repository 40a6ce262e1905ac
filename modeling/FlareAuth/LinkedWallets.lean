import FlareAuth.WalletLinks

/-!
# Runs of linking and unlinking

A run in which no write is disturbed keeps the balance of the two tables, so that once
every call has ended no row is left without its counterpart.
-/

namespace FlareAuth.Wallets

open Concurrent Procedure Relational

variable {userId : Id} {address accountId : String} {chainId : ℕ}

section Runs

variable [Numbers] {pool pool' : WalletPool}

/-- A row without its counterpart is owed it by a call in flight. -/
structure Balanced (pool : WalletPool) : Prop where
  wallets : ∀ userId address chainId, pool.store.HasWallet userId address chainId →
    pool.store.HasAccount userId (walletAccountId address chainId) ∨
      ∃ t ∈ pool.threads, OwesAccount userId address chainId t.log
  accounts : ∀ userId address chainId,
    pool.store.HasAccount userId (walletAccountId address chainId) →
      pool.store.HasWallet userId address chainId ∨
        ∃ t ∈ pool.threads, OwesRemoval userId address chainId t.log

omit [Numbers] in
theorem OwesAccount.cons {log : Log Store Operation} {e : Event Store Operation}
    (he : e.operation ≠ .insertAccount userId (walletAccountId address chainId))
    (h : OwesAccount userId address chainId log) :
    OwesAccount userId address chainId (e :: log) := by
  obtain ⟨⟨d, hd, hadds⟩, hnone⟩ := h
  exact ⟨⟨d, List.mem_cons_of_mem _ hd, hadds⟩, List.forall_mem_cons.mpr ⟨he, hnone⟩⟩

omit [Numbers] in
theorem OwesRemoval.cons {log : Log Store Operation} {e : Event Store Operation}
    (he : e.operation ≠ .deleteAccount userId (walletAccountId address chainId))
    (h : OwesRemoval userId address chainId log) :
    OwesRemoval userId address chainId (e :: log) := by
  obtain ⟨⟨d, hd, hremoves⟩, hnone⟩ := h
  exact ⟨⟨d, List.mem_cons_of_mem _ hd, hremoves⟩, List.forall_mem_cons.mpr ⟨he, hnone⟩⟩

/-- An operation that is not the second write for a wallet leaves what is owed for it. -/
theorem owesAccount_next {i : ℕ} {t : Thread Call Store Operation Failure Unit} {op : Operation}
    (hnext : pool.next Call.program (.resume i) = some pool')
    (hpending : pool.pending i = some (t, op))
    (hop : op ≠ .insertAccount userId (walletAccountId address chainId))
    (h : ∃ t ∈ pool.threads, OwesAccount userId address chainId t.log) :
    ∃ t ∈ pool'.threads, OwesAccount userId address chainId t.log :=
  Pool.exists_log_next hnext hpending (P := OwesAccount userId address chainId)
    (OwesAccount.cons hop) h

theorem owesRemoval_next {i : ℕ} {t : Thread Call Store Operation Failure Unit} {op : Operation}
    (hnext : pool.next Call.program (.resume i) = some pool')
    (hpending : pool.pending i = some (t, op))
    (hop : op ≠ .deleteAccount userId (walletAccountId address chainId))
    (h : ∃ t ∈ pool.threads, OwesRemoval userId address chainId t.log) :
    ∃ t ∈ pool'.threads, OwesRemoval userId address chainId t.log :=
  Pool.exists_log_next hnext hpending (P := OwesRemoval userId address chainId)
    (OwesRemoval.cons hop) h

/-- An operation on neither table leaves the balance. -/
theorem Balanced.next_of_same (h : Balanced pool) {i : ℕ}
    {t : Thread Call Store Operation Failure Unit} {op : Operation}
    (hnext : pool.next Call.program (.resume i) = some pool')
    (hpending : pool.pending i = some (t, op))
    (hinsert : ∀ userId accountId, op ≠ .insertAccount userId accountId)
    (hdelete : ∀ userId accountId, op ≠ .deleteAccount userId accountId)
    (hsame : SameTables pool.store pool'.store) : Balanced pool' := by
  constructor
  · intro userId address chainId hwallet
    rw [Store.HasWallet, hsame.1] at hwallet
    rw [Store.HasAccount, hsame.2]
    rcases h.wallets userId address chainId hwallet with haccount | howes
    · exact .inl haccount
    · exact .inr (owesAccount_next hnext hpending (hinsert _ _) howes)
  · intro userId address chainId haccount
    rw [Store.HasAccount, hsame.2] at haccount
    rw [Store.HasWallet, hsame.1]
    rcases h.accounts userId address chainId haccount with hwallet | howes
    · exact .inl hwallet
    · exact .inr (owesRemoval_next hnext hpending (hdelete _ _) howes)

/-- Every step of an undisturbed run leaves the balance. -/
theorem Balanced.next (h : Balanced pool) {i : ℕ} {t : Thread Call Store Operation Failure Unit}
    {op : Operation} (hnext : pool.next Call.program (.resume i) = some pool')
    (hpending : pool.pending i = some (t, op)) (hordered : Ordered t.log pool.store op)
    (hundisturbed : op.Undisturbed pool t.call) : Balanced pool' := by
  obtain ⟨t₀, op₀, hpending₀, hstore, -, t', ht', -, hlog⟩ := Pool.thread_resumed hnext
  obtain ⟨rfl, rfl⟩ : t₀ = t ∧ op₀ = op := by simpa [hpending₀] using hpending
  have hkept : ∀ {userId address chainId},
      op₀ ≠ .insertAccount userId (walletAccountId address chainId) →
      (∃ t ∈ pool.threads, OwesAccount userId address chainId t.log) →
      ∃ t ∈ pool'.threads, OwesAccount userId address chainId t.log :=
    fun hop howes => owesAccount_next hnext hpending hop howes
  have hkept' : ∀ {userId address chainId},
      op₀ ≠ .deleteAccount userId (walletAccountId address chainId) →
      (∃ t ∈ pool.threads, OwesRemoval userId address chainId t.log) →
      ∃ t ∈ pool'.threads, OwesRemoval userId address chainId t.log :=
    fun hop howes => owesRemoval_next hnext hpending hop howes
  cases op₀ with
  | insertWallet userId address chainId isPrimary =>
    by_cases hfree : pool.store.WalletFree address chainId
    · constructor
      · intro userId' address' chainId' hwallet
        rw [hstore, hasWallet_insertWallet hfree] at hwallet
        rw [hstore, Store.HasAccount, accounts_insertWallet]
        rcases hwallet with hwallet | ⟨rfl, rfl, rfl⟩
        · rcases h.wallets _ _ _ hwallet with haccount | howes
          · exact .inl haccount
          · exact .inr (hkept (by simp) howes)
        · -- the call that has added the wallet owes its account
          refine .inr ⟨t', ht', ?_⟩
          rw [hlog]
          refine ⟨⟨_, List.mem_cons_self, ⟨isPrimary, rfl⟩, hfree⟩, ?_⟩
          exact List.forall_mem_cons.mpr ⟨by simp, fun e he => hordered e he _ _⟩
      · intro userId' address' chainId' haccount
        rw [hstore, Store.HasAccount, accounts_insertWallet] at haccount
        rw [hstore, hasWallet_insertWallet hfree]
        rcases h.accounts _ _ _ haccount with hwallet | howes
        · exact .inl (.inl hwallet)
        · exact .inr (hkept' (by simp) howes)
    · refine h.next_of_same hnext hpending (by simp) (by simp) ?_
      rw [hstore, apply_insertWallet_of_taken hfree]
      exact ⟨rfl, rfl⟩
  | insertAccount userId accountId =>
    obtain ⟨hfree, hwallet⟩ := hundisturbed
    constructor
    · intro userId' address' chainId' hwallet'
      rw [hstore, Store.HasWallet, wallets_insertAccount] at hwallet'
      rw [hstore, hasAccount_insertAccount hfree]
      by_cases hsame : userId = userId' ∧ accountId = walletAccountId address' chainId'
      · exact .inl (.inr hsame)
      · rcases h.wallets _ _ _ hwallet' with haccount | howes
        · exact .inl (.inl haccount)
        · exact .inr (hkept (by simpa using hsame) howes)
    · intro userId' address' chainId' haccount
      rw [hstore, hasAccount_insertAccount hfree] at haccount
      rw [hstore, Store.HasWallet, wallets_insertAccount]
      have hcases : pool.store.HasWallet userId' address' chainId' ∨
          ∃ t ∈ pool.threads, OwesRemoval userId' address' chainId' t.log := by
        rcases haccount with haccount | ⟨rfl, hid⟩
        · exact h.accounts _ _ _ haccount
        · exact hwallet _ _ hid
      rcases hcases with hwallet' | howes
      · exact .inl hwallet'
      · exact .inr (hkept' (by simp) howes)
  | deleteWallet userId address chainId =>
    constructor
    · intro userId' address' chainId' hwallet
      rw [hstore, hasWallet_deleteWallet] at hwallet
      rw [hstore]
      rcases h.wallets _ _ _ hwallet.1 with haccount | howes
      · exact .inl haccount
      · exact .inr (hkept (by simp) howes)
    · intro userId' address' chainId' haccount
      rw [hstore] at haccount
      rw [hstore, hasWallet_deleteWallet]
      rcases h.accounts _ _ _ haccount with hwallet | howes
      · by_cases hsame : userId' = userId ∧ address' = address ∧ chainId' = chainId
        · -- the call that has removed the wallet owes the removal of its account
          obtain ⟨rfl, rfl, rfl⟩ := hsame
          refine .inr ⟨t', ht', ?_⟩
          rw [hlog]
          refine ⟨⟨_, List.mem_cons_self, rfl, hwallet⟩, ?_⟩
          exact List.forall_mem_cons.mpr ⟨by simp, fun e he => hordered e he _ _⟩
        · exact .inl ⟨hwallet, hsame⟩
      · exact .inr (hkept' (by simp) howes)
  | deleteAccount userId accountId =>
    constructor
    · intro userId' address' chainId' hwallet
      rw [hstore] at hwallet
      rw [hstore, hasAccount_deleteAccount]
      rcases h.wallets _ _ _ hwallet with haccount | howes
      · by_cases hsame : userId' = userId ∧ walletAccountId address' chainId' = accountId
        · obtain ⟨rfl, rfl⟩ := hsame
          exact .inr (hkept (by simp) (hundisturbed haccount _ _ rfl hwallet))
        · exact .inl ⟨haccount, hsame⟩
      · exact .inr (hkept (by simp) howes)
    · intro userId' address' chainId' haccount
      rw [hstore, hasAccount_deleteAccount] at haccount
      rw [hstore]
      rcases h.accounts _ _ _ haccount.1 with hwallet | howes
      · exact .inl hwallet
      · refine .inr (hkept' (fun hop => haccount.2 ?_) howes)
        obtain ⟨rfl, rfl⟩ := Operation.deleteAccount.inj hop
        exact ⟨rfl, rfl⟩
  | findWalletAddress | findAnyWalletAddress | countWallets =>
    refine h.next_of_same hnext hpending (by simp) (by simp) ?_
    rw [hstore]
    exact ⟨rfl, rfl⟩

theorem balanced (h : Reachable Call.program Store.Consistent Undisturbed pool) :
    Balanced pool := by
  induction h with
  | initial hs => exact ⟨fun _ _ _ hwallet => .inl ((hs.matched _ _ _).mp hwallet),
      fun _ _ _ haccount => .inl ((hs.matched _ _ _).mpr haccount)⟩
  | @next pool pool' m hpool hm hnext ih =>
    cases m with
    | start c =>
      have hkept : ∀ {P : Log Store Operation → Prop}, (∃ t ∈ pool.threads, P t.log) →
          ∃ t ∈ pool'.threads, P t.log := by
        simp only [Pool.next, Option.some.injEq] at hnext
        subst hnext
        rintro P ⟨t, ht, hP⟩
        exact ⟨t, List.mem_append_left _ ht, hP⟩
      have hstore : pool'.store = pool.store := by
        simp only [Pool.next, Option.some.injEq] at hnext
        rw [← hnext]
      constructor
      · intro userId address chainId hwallet
        rw [hstore] at hwallet ⊢
        exact (ih.wallets _ _ _ hwallet).imp_right hkept
      · intro userId address chainId haccount
        rw [hstore] at haccount ⊢
        exact (ih.accounts _ _ _ haccount).imp_right hkept
    | resume i =>
      obtain ⟨t, op, hpending, -, -, -⟩ := Pool.thread_resumed hnext
      obtain ⟨-, hordered⟩ := hpool.pending_obeys program_contract hpending
      exact ih.next hnext hpending hordered (hm i t op rfl hpending)

theorem owned (h : Reachable Call.program Store.Consistent Undisturbed pool) :
    pool.store.Owned := by
  refine h.keeps (fun s hs => hs.owned) fun pool i t op _ hm hpending howned => ?_
  refine owned_apply howned ?_
  rintro userId address chainId isPrimary rfl
  exact hm i t _ rfl hpending

/-- Every operation of a call found what it needed. -/
theorem undisturbed_of_mem (h : Reachable Call.program Store.Consistent Undisturbed pool)
    {t : Thread Call Store Operation Failure Unit} (ht : t ∈ pool.threads)
    {e : Event Store Operation} (he : e ∈ t.log) :
    ∃ pool₀ : WalletPool, pool₀.store = e.before ∧ e.operation.Undisturbed pool₀ t.call := by
  obtain ⟨later, earlier, hlog⟩ := List.append_of_mem he
  obtain ⟨pool₀, i, t₀, after, -, hok, hthread, hcall, -, hrest, hstore, -⟩ := h.of_log ht hlog
  refine ⟨pool₀, hstore, ?_⟩
  rw [← hcall]
  exact hok i t₀ _ rfl (Pool.pending_of_step hthread hrest)

/-- A call that has ended owes no account. -/
theorem not_owesAccount (h : Reachable Call.program Store.Consistent Undisturbed pool)
    {t : Thread Call Store Operation Failure Unit} (ht : t ∈ pool.threads)
    (hended : t.rest.result.isSome = true) : ¬OwesAccount userId address chainId t.log := by
  rintro ⟨⟨e, he, hadds⟩, hnone⟩
  obtain ⟨r, hr⟩ := Option.isSome_iff_exists.mp hended
  obtain ⟨e', he', hop⟩ := (h.ended program_contract ht hr).added e he _ _ _ hadds
  exact hnone e' he' hop

/-- A call that has ended owes no removal of an account. -/
theorem not_owesRemoval (h : Reachable Call.program Store.Consistent Undisturbed pool)
    {t : Thread Call Store Operation Failure Unit} (ht : t ∈ pool.threads)
    (hended : t.rest.result.isSome = true) : ¬OwesRemoval userId address chainId t.log := by
  rintro ⟨⟨e, he, hop, hwallet⟩, hnone⟩
  obtain ⟨r, hr⟩ := Option.isSome_iff_exists.mp hended
  obtain ⟨pool₀, hstore, hundisturbed⟩ := undisturbed_of_mem h ht he
  rw [hop] at hundisturbed
  rw [← hstore] at hwallet
  have hcall := hundisturbed hwallet
  obtain ⟨e', he', hop'⟩ := (h.ended program_contract ht hr).removed e he _ _ _ hop _ hcall
  exact hnone e' he' hop'

theorem matched_of_ended (h : Reachable Call.program Store.Consistent Undisturbed pool)
    (hended : ∀ t ∈ pool.threads, t.rest.result.isSome = true) : pool.store.Matched := by
  intro userId address chainId
  constructor
  · intro hwallet
    rcases (balanced h).wallets _ _ _ hwallet with haccount | ⟨t, ht, howes⟩
    · exact haccount
    · exact absurd howes (not_owesAccount h ht (hended t ht))
  · intro haccount
    rcases (balanced h).accounts _ _ _ haccount with hwallet | ⟨t, ht, howes⟩
    · exact hwallet
    · exact absurd howes (not_owesRemoval h ht (hended t ht))

/-- In an undisturbed run the tables are consistent whenever no call is in flight, and a call
that throws has changed neither table. -/
theorem wallets_stay_linked (h : Reachable Call.program Store.Consistent Undisturbed pool) :
    ((∀ t ∈ pool.threads, t.rest.result.isSome = true) → pool.store.Consistent) ∧
      ∀ t ∈ pool.threads, ∀ failure, t.rest = .fail failure →
        ∀ e ∈ t.log, SameTables e.before (apply e.operation e.before) := by
  refine ⟨fun hended => ⟨owned h, matched_of_ended h hended⟩, fun t ht failure hfail => ?_⟩
  have hresult : t.rest.result = some (.error failure) := by rw [hfail]; rfl
  rcases (h.ended program_contract ht hresult).thrown failure rfl with hsame | hrefused
  · exact hsame
  · -- an account row that was taken is ruled out by the condition on the step
    obtain ⟨e, he, userId, accountId, hop, htaken⟩ := hrefused
    obtain ⟨pool₀, hstore, hundisturbed⟩ := undisturbed_of_mem h ht he
    rw [hop] at hundisturbed
    exact absurd (hstore ▸ hundisturbed.1) htaken

end Runs

namespace Sample

/-- The numbers of texts of decimal digits. -/
local instance : Numbers where
  number text :=
    if text.toList.all Char.isDigit then
      let n := text.toList.foldl (fun n c => 10 * n + (c.toNat - 48)) 0
      if n = 0 then none else some n
    else none

def store : Store := ⟨0, [], []⟩

theorem store_consistent : store.Consistent := by
  refine ⟨⟨(fun w hw => nomatch hw), (fun w hw => nomatch hw)⟩, fun userId address chainId => ?_⟩
  constructor
  · rintro ⟨w, hw, -⟩
    cases hw
  · rintro ⟨a, ha, -⟩
    cases ha

def ended (pool : WalletPool) : Bool := pool.threads.all fun t => t.rest.result.isSome

theorem ended_iff {pool : WalletPool} :
    ended pool = true ↔ ∀ t ∈ pool.threads, t.rest.result.isSome = true :=
  List.all_eq_true

def threw (t : Thread Call Store Operation Failure Unit) : Bool :=
  match t.rest with
  | .fail _ => true
  | _ => false

theorem threw_iff {t : Thread Call Store Operation Failure Unit} :
    threw t = true ↔ ∃ failure, t.rest = .fail failure := by
  cases hrest : t.rest <;> simp [threw, hrest]

/-- Two users link one address on two chains, each before the other has written. -/
def twoChains : List (Move Call) :=
  [.start (.linkWalletAddress "u" "a" 1), .start (.linkWalletAddress "v" "a" 2)] ++
    List.replicate 3 (.resume 0) ++ List.replicate 5 (.resume 1) ++ List.replicate 2 (.resume 0)

/-- A user links a wallet and unlinks it, with the chain written in another way. -/
def otherText : List (Move Call) :=
  [.start (.linkWalletAddress "u" "a" 1), .start (.unlinkWalletAddress "u" "a:01")] ++
    List.replicate 5 (.resume 0) ++ List.replicate 2 (.resume 1)

/-- The same, and the user links the wallet again. -/
def linkedAgain : List (Move Call) :=
  otherText ++ [.start (.linkWalletAddress "u" "a" 1)] ++ List.replicate 5 (.resume 2)

/-- One address gets two owners, an account outlives its wallet, and a link throws although it has
added a wallet. -/
theorem wallets_parted :
    (∃ pool : WalletPool, Reachable Call.program Store.Consistent
      (Unrestricted Call Store Operation Failure Unit) pool ∧
      (∀ t ∈ pool.threads, t.rest.result.isSome = true) ∧ ¬pool.store.Owned) ∧
    (∃ pool : WalletPool, Reachable Call.program Store.Consistent
      (Unrestricted Call Store Operation Failure Unit) pool ∧
      (∀ t ∈ pool.threads, t.rest.result.isSome = true) ∧ ¬pool.store.Matched) ∧
    ∃ pool : WalletPool, Reachable Call.program Store.Consistent
      (Unrestricted Call Store Operation Failure Unit) pool ∧
      ∃ t ∈ pool.threads, ∃ failure, t.rest = .fail failure ∧
        ∃ e ∈ t.log, ¬SameTables e.before (apply e.operation e.before) := by
  have hrun : ((Pool.initial store).run Call.program (fun _ _ => true) twoChains).any
      (fun pool => ended pool && pool.store.wallets.map (fun w => (w.address, w.userId)) ==
        [("a", "v"), ("a", "u")]) = true := by
    decide +kernel
  have hrun' : ((Pool.initial store).run Call.program (fun _ _ => true) otherText).any
      (fun pool => ended pool && (pool.store.wallets == []) &&
        (pool.store.accounts == [⟨"id-1", "a:1", "siwe", "u"⟩])) = true := by
    decide +kernel
  have hrun'' : ((Pool.initial store).run Call.program (fun _ _ => true) linkedAgain).any
      (fun pool => pool.threads.any fun t => threw t &&
        t.log.any fun e => decide ((apply e.operation e.before).wallets.length ≠
          e.before.wallets.length)) = true := by
    decide +kernel
  obtain ⟨pool, hpool, hcheck⟩ := (Option.any_eq_true _ _).mp hrun
  obtain ⟨pool', hpool', hcheck'⟩ := (Option.any_eq_true _ _).mp hrun'
  obtain ⟨pool'', hpool'', hcheck''⟩ := (Option.any_eq_true _ _).mp hrun''
  have hreach : ∀ {moves : List (Move Call)} {pool : WalletPool},
      (Pool.initial store).run Call.program (fun _ _ => true) moves = some pool →
      Reachable Call.program Store.Consistent
        (Unrestricted Call Store Operation Failure Unit) pool :=
    fun hrun => .of_run (fun _ _ _ => trivial) (.initial store_consistent) hrun
  refine ⟨⟨pool, hreach hpool, ?_, fun howned => ?_⟩,
    ⟨pool', hreach hpool', ?_, fun hmatched => ?_⟩,
    ⟨pool'', hreach hpool'', ?_⟩⟩
  · exact ended_iff.mp ((Bool.and_eq_true _ _).mp hcheck).1
  · have hrows := eq_of_beq ((Bool.and_eq_true _ _).mp hcheck).2
    obtain ⟨w, hw, hpair⟩ := List.mem_map.mp (hrows ▸ List.mem_cons_self)
    obtain ⟨w', hw', hpair'⟩ :=
      List.mem_map.mp (hrows ▸ List.mem_cons_of_mem _ List.mem_cons_self)
    obtain ⟨haddress, huser⟩ := Prod.mk.inj hpair
    obtain ⟨haddress', huser'⟩ := Prod.mk.inj hpair'
    have hsame := howned.owner w hw w' hw' (haddress.trans haddress'.symm)
    rw [huser, huser'] at hsame
    exact absurd hsame (by decide)
  · exact ended_iff.mp ((Bool.and_eq_true _ _).mp ((Bool.and_eq_true _ _).mp hcheck').1).1
  · obtain ⟨hrest, haccounts⟩ := (Bool.and_eq_true _ _).mp hcheck'
    have hwallets := eq_of_beq ((Bool.and_eq_true _ _).mp hrest).2
    have haccount : pool'.store.HasAccount "u" (walletAccountId "a" 1) := by
      rw [Store.HasAccount, eq_of_beq haccounts]
      exact ⟨_, List.mem_cons_self, rfl, rfl, by decide⟩
    obtain ⟨w, hw, -⟩ := (hmatched "u" "a" 1).mpr haccount
    rw [hwallets] at hw
    cases hw
  · obtain ⟨t, ht, hthread⟩ := List.any_eq_true.mp hcheck''
    obtain ⟨hfail, hlog⟩ := (Bool.and_eq_true _ _).mp hthread
    obtain ⟨e, he, hlength⟩ := List.any_eq_true.mp hlog
    obtain ⟨failure, hrest⟩ := threw_iff.mp hfail
    exact ⟨t, ht, failure, hrest, e, he, fun hsame => of_decide_eq_true hlength (by rw [hsame.1])⟩

/-- Sufficient for a step to be undisturbed, and decided by evaluation. -/
def undisturbedCheck (pool : WalletPool) : Move Call → Bool
  | .start _ => true
  | .resume i =>
    match pool.pending i with
    | some (_, .insertWallet userId address _ isPrimary) => pool.store.wallets.all fun w =>
      decide ((w.address = address → w.userId = userId) ∧
        (isPrimary = true → w.userId = userId → w.isPrimary = false))
    | some (_, .insertAccount userId accountId) =>
      (pool.store.accounts.all fun a =>
        decide ¬(a.providerId = "siwe" ∧ a.accountId = accountId)) &&
        pool.store.wallets.any fun w =>
          decide (w.userId = userId ∧ accountId = walletAccountId w.address w.chainId)
    | some (t, .deleteWallet userId address chainId) =>
      decide (t.call = .unlinkWalletAddress userId (walletAccountId address chainId))
    | some (_, .deleteAccount userId accountId) => pool.store.wallets.all fun w =>
      decide ¬(w.userId = userId ∧ accountId = walletAccountId w.address w.chainId)
    | _ => true

theorem undisturbed_of_check {pool : WalletPool} {m : Move Call}
    (h : undisturbedCheck pool m = true) : Undisturbed pool m := by
  rintro i t op rfl hpending
  simp only [undisturbedCheck, hpending] at h
  cases op with
  | insertWallet userId address chainId isPrimary =>
    have hrows := fun w hw => of_decide_eq_true (List.all_eq_true.mp h w hw)
    exact fun _ => ⟨fun w hw => (hrows w hw).1, fun hp w hw => (hrows w hw).2 hp⟩
  | insertAccount userId accountId =>
    obtain ⟨hfree, hwallet⟩ := (Bool.and_eq_true _ _).mp h
    refine ⟨fun a ha => of_decide_eq_true (List.all_eq_true.mp hfree a ha), ?_⟩
    intro address chainId hid
    obtain ⟨w, hw, hcheck⟩ := List.any_eq_true.mp hwallet
    obtain ⟨huser, hid'⟩ := of_decide_eq_true hcheck
    obtain ⟨haddress, hchain⟩ := walletAccountId_inj (hid'.symm.trans hid)
    exact .inl ⟨w, hw, huser, haddress, hchain⟩
  | deleteWallet userId address chainId => exact fun _ => of_decide_eq_true h
  | deleteAccount userId accountId =>
    rintro - address chainId hid ⟨w, hw, huser, rfl, rfl⟩
    exact absurd ⟨huser, hid⟩ (of_decide_eq_true (List.all_eq_true.mp h w hw))
  | _ => trivial

/-- One user links an address on two chains and unlinks one of them, and then another user is
refused the address. -/
def inTurn : List (Move Call) :=
  [.start (.linkWalletAddress "u" "a" 1), .start (.linkWalletAddress "u" "a" 2),
    .start (.unlinkWalletAddress "u" "a:1"), .start (.linkWalletAddress "v" "a" 1)] ++
    List.replicate 5 (.resume 0) ++ List.replicate 5 (.resume 1) ++ List.replicate 2 (.resume 2) ++
    List.replicate 2 (.resume 3)

theorem wallets_stay_linked_inTurn : ∃ pool : WalletPool, pool.store.Consistent ∧
    pool.store.wallets.map (·.chainId) = [2] ∧
    ∃ t ∈ pool.threads, ∃ failure, t.rest = .fail failure ∧
      ∀ e ∈ t.log, SameTables e.before (apply e.operation e.before) := by
  have hrun : ((Pool.initial store).run Call.program undisturbedCheck inTurn).any
      (fun pool => ended pool && (pool.store.wallets.map (·.chainId) == [2]) &&
        pool.threads.any threw) = true := by
    decide +kernel
  obtain ⟨pool, hpool, hcheck⟩ := (Option.any_eq_true _ _).mp hrun
  obtain ⟨hrest, hfails⟩ := (Bool.and_eq_true _ _).mp hcheck
  obtain ⟨hended, hchains⟩ := (Bool.and_eq_true _ _).mp hrest
  have hreach := Reachable.of_run (fun _ _ => undisturbed_of_check)
    (.initial store_consistent) hpool
  obtain ⟨hconsistent, hthrown⟩ := wallets_stay_linked hreach
  obtain ⟨t, ht, hfail⟩ := List.any_eq_true.mp hfails
  obtain ⟨failure, hthread⟩ := threw_iff.mp hfail
  exact ⟨pool, hconsistent (ended_iff.mp hended), eq_of_beq hchains, t, ht, failure, hthread,
    hthrown t ht failure hthread⟩

end Sample

end FlareAuth.Wallets
