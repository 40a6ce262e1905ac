import FlareAuth.Concurrent.Batch
import FlareAuth.Concurrent.Pool
import FlareAuth.Directory
import FlareAuth.Failure
import FlareAuth.Relational.Table
import FlareAuth.Text.Strings

/-!
# Wallets of users

A user links the addresses of wallets, each on some chains. A linked wallet has a row
of its own and a row among the accounts of the user, for which the address and the
chain are written into one text. The two rows are written one after the other.
-/

namespace FlareAuth.Wallets

open Concurrent Procedure Relational

/-- What `Number` makes of a text, as far as it is a positive integer. -/
class Numbers where
  number : String → Option ℕ

structure WalletAddress where
  id : Id
  userId : Id
  address : String
  chainId : ℕ
  isPrimary : Bool
  deriving DecidableEq

structure Account where
  id : Id
  accountId : String
  providerId : String
  userId : Id
  deriving DecidableEq

/-- `generated` counts the identifiers of rows. -/
structure Store where
  generated : ℕ
  wallets : List WalletAddress
  accounts : List Account

namespace Store

variable (s : Store)

def findWalletAddress (address : String) (chainId : ℕ) : Option WalletAddress :=
  s.wallets.find? fun w => w.address = address ∧ w.chainId = chainId

def findAnyWalletAddress (address : String) : Option WalletAddress :=
  s.wallets.find? fun w => w.address = address

end Store

def walletAccountId (address : String) (chainId : ℕ) : String :=
  address ++ ":" ++ toString chainId

/-- The last occurrence of a character splits a list in one way only. -/
theorem append_cons_inj {x : Char} {before before' after after' : List Char} (hafter : x ∉ after)
    (hafter' : x ∉ after') (h : before ++ x :: after = before' ++ x :: after') :
    before = before' ∧ after = after' := by
  have hone : ∀ {between left right : List Char}, x ∉ left → x :: left = between ++ x :: right →
      between = [] ∧ left = right := by
    intro between left right hleft heq
    cases between with
    | nil => exact ⟨rfl, (List.cons.inj heq).2⟩
    | cons y between =>
      refine absurd ?_ hleft
      rw [(List.cons.inj heq).2]
      exact List.mem_append_right _ List.mem_cons_self
  rcases List.append_eq_append_iff.mp h with ⟨between, rfl, heq⟩ | ⟨between, rfl, heq⟩
  · obtain ⟨rfl, rfl⟩ := hone hafter heq
    exact ⟨(List.append_nil before).symm, rfl⟩
  · obtain ⟨rfl, rfl⟩ := hone hafter' heq
    exact ⟨List.append_nil before', rfl⟩

theorem colon_not_mem_toString (n : ℕ) : ':' ∉ (toString n).toList := by
  intro h
  rw [Nat.toString_eq_ofList_toDigits, String.toList_ofList] at h
  have hdigit := Nat.isDigit_of_mem_toDigits (by decide) (by decide) h
  cases hdigit

theorem walletAccountId_inj {address address' : String} {chainId chainId' : ℕ}
    (h : walletAccountId address chainId = walletAccountId address' chainId') :
    address = address' ∧ chainId = chainId' := by
  have hchars := congrArg String.toList h
  rw [walletAccountId, walletAccountId, String.append_assoc, String.append_assoc,
    String.toList_append, String.toList_append, String.toList_append,
    String.toList_append] at hchars
  obtain ⟨haddress, hchain⟩ :=
    append_cons_inj (colon_not_mem_toString chainId) (colon_not_mem_toString chainId') hchars
  exact ⟨String.toList_inj.mp haddress, Text.toString_inj (String.toList_inj.mp hchain)⟩

/-- What stands before the last colon, and the number after it. -/
def parseWalletAccountId [Numbers] (value : String) : Option (String × ℕ) :=
  let isColon := fun c : Char => c != ':'
  let reversed := value.toList.reverse
  match reversed.dropWhile isColon with
  | [] => none
  | _ :: address =>
    (Numbers.number (String.ofList (reversed.takeWhile isColon).reverse)).map fun chainId =>
      (String.ofList address.reverse, chainId)

abbrev StoreBatch := Batch Store Failure

namespace Repository

/-- The unique index of wallets. -/
def insertWallet (userId : Id) (address : String) (chainId : ℕ) (isPrimary : Bool) :
    StoreBatch WalletAddress := fun s =>
  if (s.findWalletAddress address chainId).isSome then .error (.error "constraint failed")
  else
    let created : WalletAddress :=
      ⟨"id-" ++ toString s.generated, userId, address, chainId, isPrimary⟩
    .ok (created, { s with generated := s.generated + 1, wallets := s.wallets ++ [created] })

/-- The unique index of accounts. -/
def insertAccount (userId : Id) (accountId : String) : StoreBatch Unit := fun s =>
  if s.accounts.any fun a => a.providerId == "siwe" && a.accountId == accountId then
    .error (.error "constraint failed")
  else .ok ((), { s with
    generated := s.generated + 1
    accounts := s.accounts ++ [⟨"id-" ++ toString s.generated, accountId, "siwe", userId⟩] })

def deleteWallet (userId : Id) (address : String) (chainId : ℕ) : StoreBatch Unit :=
  Batch.modify fun s => { s with wallets := s.wallets.filter fun w =>
    !(w.userId == userId && w.address == address && w.chainId == chainId) }

def deleteAccount (userId : Id) (accountId : String) : StoreBatch Unit :=
  Batch.modify fun s => { s with accounts := s.accounts.filter fun a =>
    !(a.userId == userId && a.providerId == "siwe" && a.accountId == accountId) }

end Repository

inductive Operation where
  | findWalletAddress (address : String) (chainId : ℕ)
  | findAnyWalletAddress (address : String)
  | countWallets (userId : Id)
  | insertWallet (userId : Id) (address : String) (chainId : ℕ) (isPrimary : Bool)
  | insertAccount (userId : Id) (accountId : String)
  | deleteWallet (userId : Id) (address : String) (chainId : ℕ)
  | deleteAccount (userId : Id) (accountId : String)
  deriving DecidableEq

def Operation.perform : Operation → Store → Store
  | .insertWallet userId address chainId isPrimary, s =>
    (Repository.insertWallet userId address chainId isPrimary).settle s
  | .insertAccount userId accountId, s => (Repository.insertAccount userId accountId).settle s
  | .deleteWallet userId address chainId, s =>
    (Repository.deleteWallet userId address chainId).settle s
  | .deleteAccount userId accountId, s => (Repository.deleteAccount userId accountId).settle s
  | _, s => s

instance : Operational Operation Store := ⟨Operation.perform⟩

abbrev Linking := Procedure Store Operation Failure

section Usecases

variable {α : Type}

def commit (op : Operation) (batch : StoreBatch α) : Linking α :=
  Procedure.step op fun s => Procedure.ofExcept (batch.outcome s)

def linkWalletAddress (userId : Id) (address : String) (chainId : ℕ) : Linking WalletAddress := do
  let linkedElsewhere := badRequest "This wallet is already linked to another account."
  let existing ← Procedure.query (.findWalletAddress address chainId)
    (·.findWalletAddress address chainId)
  match existing with
  | some existing => if existing.userId ≠ userId then fail linkedElsewhere else return existing
  | none =>
    let existingAddress ← Procedure.query (.findAnyWalletAddress address)
      (·.findAnyWalletAddress address)
    require (existingAddress.all (·.userId = userId)) linkedElsewhere
    let primaryCount ← Procedure.query (.countWallets userId)
      fun s => s.wallets.countP (·.userId = userId)
    let created ← commit (.insertWallet userId address chainId (primaryCount = 0))
      (Repository.insertWallet userId address chainId (primaryCount = 0))
    commit (.insertAccount userId (walletAccountId address chainId))
      (Repository.insertAccount userId (walletAccountId address chainId))
    return created

def unlinkWalletAddress [Numbers] (userId : Id) (accountId : String) : Linking Unit := do
  let (address, chainId) ← orThrow (parseWalletAccountId accountId)
    (badRequest "Invalid wallet account id.")
  commit (.deleteWallet userId address chainId) (Repository.deleteWallet userId address chainId)
  commit (.deleteAccount userId accountId) (Repository.deleteAccount userId accountId)

end Usecases

inductive Call where
  | linkWalletAddress (userId : Id) (address : String) (chainId : ℕ)
  | unlinkWalletAddress (userId : Id) (accountId : String)
  deriving DecidableEq

def Call.program [Numbers] : Call → Linking Unit
  | .linkWalletAddress userId address chainId => do
    let _ ← Wallets.linkWalletAddress userId address chainId
  | .unlinkWalletAddress userId accountId => Wallets.unlinkWalletAddress userId accountId

abbrev WalletPool := Pool Call Store Operation Failure Unit

end FlareAuth.Wallets
