import IronDag.Account.Privacy
import IronDag.Account.Sponsor
import IronDag.Account.Wallet
import IronDag.Chain.Evm
import IronDag.Lib.Fallible

namespace IronDag

open Option

/-- A call on the chain returns an error or panics. -/
abbrev ChainFault := Fault BlockchainError

/-- The accounts of the Verkle state. Every write goes to them and to the tree over them. -/
abbrev VerkleState := Table Address AccountState

namespace VerkleState

variable (verkle : VerkleState) (address : Address)

def account : AccountState :=
  verkle.getD address { balance := 0, nonce := 0 }

def setBalance (balance : U128) : VerkleState :=
  verkle.insert address { verkle.account address with balance }

def setNonce (nonce : U64) : VerkleState :=
  verkle.insert address { verkle.account address with nonce }

variable (read : Address)

theorem account_setBalance {balance : U128} : (verkle.setBalance address balance).account read =
      if read = address then { verkle.account read with balance } else verkle.account read := by
  unfold setBalance account
  rw [Table.getD_write]
  split
  · next same => rw [same]
  · rfl

theorem account_setNonce {nonce : U64} : (verkle.setNonce address nonce).account read =
      if read = address then { verkle.account read with nonce } else verkle.account read := by
  unfold setNonce account
  rw [Table.getD_write]
  split
  · next same => rw [same]
  · rfl

end VerkleState

/-- The blocks of the chain in the order of their arrival, with the indexes over them. -/
structure BlocksData where
  blocks : List Block
  blockHashes : Finset Hash
  blockByHash : Table Hash Nat
  blockByNumber : Table U64 Nat
  txByHash : Table Hash (Nat × Nat)

def BlocksData.empty : BlocksData where
  blocks := []
  blockHashes := ∅
  blockByHash := ∅
  blockByNumber := ∅
  txByHash := ∅

/-- The fields of `Blockchain` that the processing of transactions uses. -/
structure Ledger where
  database : Option StateDatabase
  blocks : BlocksData
  accounts : Table Address AccountState
  cachedLatestBlockNumber : U64
  /-- One list of hashes for each of the last 1000 blocks, oldest first. -/
  recentTxHashes : List (List Hash)
  spentOutputs : Table (Address × U64) (Hash × U64)
  verkleState : Option VerkleState
  evmEnabled : Bool
  evmExecutor : Option EvmExecutor
  walletRegistry : Option WalletRegistry
  sponsorRegistry : SponsorRegistry
  privacyPool : PrivacyPool
  /-- Present in builds with the `privacy` feature. -/
  privacyManager : Option PrivacyManager
  chainId : U64

/-- A computation on the ledger. -/
abbrev LedgerM := Fallible ChainFault Ledger

namespace Ledger

def new : Ledger where
  database := none
  blocks := BlocksData.empty
  accounts := ∅
  cachedLatestBlockNumber := 0
  recentTxHashes := []
  spentOutputs := ∅
  verkleState := none
  evmEnabled := false
  evmExecutor := none
  walletRegistry := none
  sponsorRegistry := ∅
  privacyPool := PrivacyPool.empty
  privacyManager := none
  chainId := 11567

variable (ledger : Ledger)

def getBalance (address : Address) : U128 :=
  match ledger.verkleState with
  | some verkle => (verkle.account address).balance
  | none =>
    ((ledger.database.bind fun database => database.getBalance address).or
      ((ledger.accounts.lookup address).map AccountState.balance)).getD 0

def getNonce (address : Address) : U64 :=
  match ledger.verkleState with
  | some verkle => (verkle.account address).nonce
  | none =>
    ((ledger.database.bind fun database => database.getNonce address).or
      ((ledger.accounts.lookup address).map AccountState.nonce)).getD 0

/-- Writes a balance through: database first, then the Verkle state or the cache. The nonce is
what the cache entry gets. -/
def writeBalance (address : Address) (balance : U128) (nonce : U64) : Ledger :=
  { ledger with
    database := ledger.database.map fun database => database.putBalance address balance
    verkleState := ledger.verkleState.map fun verkle => verkle.setBalance address balance
    accounts :=
      if ledger.verkleState.isSome then ledger.accounts
      else ledger.accounts.insert address { balance, nonce } }

/-- Persists a nonce. The cache is left alone. -/
def writeNonce (address : Address) (nonce : U64) : Ledger :=
  { ledger with
    database := ledger.database.map fun database => database.putNonce address nonce
    verkleState := ledger.verkleState.map fun verkle => verkle.setNonce address nonce }

/-- The nonce of the cache entry, without regard to the database. -/
def cachedNonce (address : Address) : U64 :=
  ((ledger.accounts.lookup address).map AccountState.nonce).getD 0

def setBalance (address : Address) (balance : U128) : Ledger :=
  ledger.writeBalance address balance (ledger.cachedNonce address)

/-- The balance of the cache entry, without regard to the database. -/
def cachedBalance (address : Address) : U128 :=
  ((ledger.accounts.lookup address).map AccountState.balance).getD 0

def setNonce (address : Address) (nonce : U64) : Ledger :=
  { ledger.writeNonce address nonce with
    accounts :=
      if ledger.verkleState.isSome then ledger.accounts
      else ledger.accounts.insert address { balance := ledger.cachedBalance address, nonce } }

def latestBlockNumber : U64 :=
  ledger.cachedLatestBlockNumber

/-- The nonce of an address is only in the cache. -/
def NonceCached (address : Address) : Prop :=
  ledger.verkleState = none ∧ ∀ database, ledger.database = some database →
    database.getNonce address = none

/-- Nothing outlives the process: neither a database nor a Verkle state is there. -/
def MemoryOnly : Prop :=
  ledger.verkleState = none ∧ ledger.database = none

instance : Decidable ledger.MemoryOnly :=
  inferInstanceAs (Decidable (_ ∧ _))

section Reads

variable (written address : Address) (balance : U128) (nonce : U64)

theorem getBalance_writeBalance : (ledger.writeBalance written balance nonce).getBalance address =
      if address = written then balance else ledger.getBalance address := by
  unfold getBalance writeBalance
  cases ledger.verkleState with
  | some verkle =>
    simp only [map_some, VerkleState.account_setBalance]
    split <;> rfl
  | none =>
    cases ledger.database with
    | none =>
      simp only [map_none, isSome_none, Bool.false_eq_true, if_false, Table.lookup_write]
      split <;> rfl
    | some database =>
      simp only [map_none, isSome_none, Bool.false_eq_true, if_false, Table.lookup_write,
        map_some, bind_some, StateDatabase.getBalance_putBalance]
      split <;> rfl

theorem getBalance_writeNonce :
    (ledger.writeNonce written nonce).getBalance address = ledger.getBalance address := by
  unfold getBalance writeNonce
  cases ledger.verkleState with
  | some verkle =>
    simp only [map_some, VerkleState.account_setNonce]
    split <;> rfl
  | none => cases ledger.database <;> rfl

/-- Writing a balance changes a nonce only where the cache alone knows it. -/
theorem getNonce_writeBalance_of_ne (other : address ≠ written) :
    (ledger.writeBalance written balance nonce).getNonce address = ledger.getNonce address := by
  unfold getNonce writeBalance
  cases ledger.verkleState with
  | some verkle => simp [VerkleState.account_setBalance, other]
  | none => cases ledger.database <;> simp [other]

theorem getNonce_writeBalance_of_cached (cached : ledger.NonceCached written) :
    (ledger.writeBalance written balance nonce).getNonce written = nonce := by
  obtain ⟨noVerkle, unknown⟩ := cached
  unfold getNonce writeBalance
  cases present : ledger.database with
  | none => simp [noVerkle]
  | some database => simp [noVerkle, unknown database present]

theorem getNonce_writeBalance_of_stored (stored : ¬ledger.NonceCached written) :
    (ledger.writeBalance written balance nonce).getNonce written = ledger.getNonce written := by
  unfold getNonce writeBalance
  cases verkle : ledger.verkleState with
  | some verkle => simp [VerkleState.account_setBalance]
  | none =>
    cases present : ledger.database with
    | none => exact absurd ⟨verkle, by simp [present]⟩ stored
    | some database =>
      cases known : database.getNonce written with
      | none =>
        refine absurd ⟨verkle, fun other same => ?_⟩ stored
        rw [present, some.injEq] at same
        rwa [← same]
      | some value => simp [known]

theorem getNonce_writeBalance_same :
    (ledger.writeBalance written balance (ledger.getNonce written)).getNonce address =
      ledger.getNonce address := by
  by_cases other : address = written
  · subst other
    by_cases cached : ledger.NonceCached address
    · exact getNonce_writeBalance_of_cached _ _ _ _ cached
    · exact getNonce_writeBalance_of_stored _ _ _ _ cached
  · exact getNonce_writeBalance_of_ne _ _ _ _ _ other

theorem getNonce_writeNonce_of_ne (other : address ≠ written) :
    (ledger.writeNonce written nonce).getNonce address = ledger.getNonce address := by
  unfold getNonce writeNonce
  cases ledger.verkleState with
  | some verkle => simp [VerkleState.account_setNonce, other]
  | none => cases ledger.database <;> simp [other]

theorem getNonce_writeNonce_of_persistent (persistent : ¬ledger.MemoryOnly) :
    (ledger.writeNonce written nonce).getNonce written = nonce := by
  unfold getNonce writeNonce
  cases verkle : ledger.verkleState with
  | some verkle => simp [VerkleState.account_setNonce]
  | none =>
    cases present : ledger.database with
    | none => exact absurd ⟨verkle, present⟩ persistent
    | some database => simp

theorem writeNonce_of_memoryOnly (memory : ledger.MemoryOnly) :
    ledger.writeNonce written nonce = ledger := by
  obtain ⟨noVerkle, noDatabase⟩ := memory
  cases ledger
  simp_all [writeNonce]

theorem cachedNonce_eq (cached : ledger.NonceCached address) :
    ledger.cachedNonce address = ledger.getNonce address := by
  obtain ⟨noVerkle, unknown⟩ := cached
  unfold cachedNonce getNonce
  cases present : ledger.database with
  | none => simp [noVerkle]
  | some database => simp [noVerkle, unknown database present]

theorem getNonce_setBalance :
    (ledger.setBalance written balance).getNonce address = ledger.getNonce address := by
  unfold setBalance
  by_cases other : address = written
  · subst other
    by_cases cached : ledger.NonceCached address
    · rw [getNonce_writeBalance_of_cached _ _ _ _ cached, cachedNonce_eq _ _ cached]
    · exact getNonce_writeBalance_of_stored _ _ _ _ cached
  · exact getNonce_writeBalance_of_ne _ _ _ _ _ other

theorem getBalance_setBalance : (ledger.setBalance written balance).getBalance address =
      if address = written then balance else ledger.getBalance address :=
  getBalance_writeBalance _ _ _ _ _

theorem getNonce_setNonce :
    (ledger.setNonce written nonce).getNonce address =
      if address = written then nonce else ledger.getNonce address := by
  unfold getNonce setNonce writeNonce
  cases ledger.verkleState with
  | some verkle =>
    simp only [map_some, VerkleState.account_setNonce]
    split <;> rfl
  | none =>
    cases ledger.database with
    | none =>
      simp only [map_none, isSome_none, Bool.false_eq_true, if_false, Table.lookup_write]
      split <;> rfl
    | some database =>
      simp only [map_none, isSome_none, Bool.false_eq_true, if_false, Table.lookup_write,
        map_some, bind_some, StateDatabase.getNonce_putNonce]
      split <;> rfl

theorem getBalance_setNonce :
    (ledger.setNonce written nonce).getBalance address = ledger.getBalance address := by
  unfold getBalance setNonce writeNonce cachedBalance
  cases ledger.verkleState with
  | some verkle =>
    simp only [map_some, VerkleState.account_setNonce]
    split <;> rfl
  | none =>
    by_cases same : address = written
    · subst same
      cases ledger.database with
      | none => simp
      | some database => cases stored : database.getBalance address <;> simp
    · cases ledger.database <;> simp [same]

end Reads

end Ledger

end IronDag
