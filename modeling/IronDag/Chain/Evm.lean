import IronDag.Chain.Error
import IronDag.Chain.StateStore

namespace IronDag

/-- What the interpreter can read. -/
structure EvmBackend where
  gasPrice : U128
  origin : Address
  blockNumber : U64
  blockTimestamp : U64
  blockGasLimit : U64
  chainId : U64
  accountExists : Address → Bool
  balance : Address → U128
  nonce : Address → U64
  code : Address → Bytes
  storage : Address → Hash → Hash
  originalStorage : Address → Hash → Option Hash
  blockHash : U64 → Hash

inductive EvmChange where
  | modify (address : Address) (balance nonce : Nat) (code : Option Bytes)
      (storage : List (Hash × Hash)) (resetStorage : Bool)
  | delete (address : Address)
  deriving DecidableEq, Repr

def EvmChange.address : EvmChange → Address
  | modify address _ _ _ _ _ => address
  | delete address => address

structure EvmSuccess where
  output : Bytes
  gasUsed : U64
  changes : List EvmChange
  logs : List EvmLog

/-- `SputnikVM`: creates a contract or calls one. A failure carries its description. -/
abbrev EvmInterpreter := EvmBackend → Transaction → Except String EvmSuccess

structure EvmState where
  contracts : Table Address Bytes
  balances : Table Address U128
  nonces : Table Address U64

namespace EvmState

def empty : EvmState where
  contracts := ∅
  balances := ∅
  nonces := ∅

def getBalance (state : EvmState) (address : Address) : U128 :=
  state.balances.getD address 0

def setBalance (state : EvmState) (address : Address) (balance : U128) : EvmState :=
  { state with balances := state.balances.insert address balance }

def getNonce (state : EvmState) (address : Address) : U64 :=
  state.nonces.getD address 0

def setNonce (state : EvmState) (address : Address) (nonce : U64) : EvmState :=
  { state with nonces := state.nonces.insert address nonce }

def storeContract (state : EvmState) (address : Address) (code : Bytes) : EvmState :=
  { state with contracts := state.contracts.insert address code }

section Reads

variable (state : EvmState) (written address : Address)

variable {balance : U128} {nonce : U64}

@[simp] theorem getBalance_setBalance : (state.setBalance written balance).getBalance address =
      if address = written then balance else state.getBalance address :=
  Table.getD_write

@[simp] theorem getNonce_setNonce :
    (state.setNonce written nonce).getNonce address =
      if address = written then nonce else state.getNonce address :=
  Table.getD_write

@[simp] theorem getNonce_setBalance :
    (state.setBalance written balance).getNonce address = state.getNonce address := rfl

@[simp] theorem getBalance_setNonce :
    (state.setNonce written nonce).getBalance address = state.getBalance address := rfl

@[simp] theorem contracts_setBalance :
    (state.setBalance written balance).contracts = state.contracts := rfl

@[simp] theorem contracts_setNonce :
    (state.setNonce written nonce).contracts = state.contracts := rfl

end Reads

end EvmState

/-- The executor. It shares the database of the chain when it was created with one. -/
structure EvmExecutor where
  state : EvmState
  persistent : Bool
  /-- The last 256 blocks, oldest first. -/
  blockHashes : List (U64 × Hash)

namespace EvmExecutor

variable (executor : EvmExecutor) (database : Option StateDatabase)

/-- The database as far as the executor has one. -/
def store : Option StateDatabase :=
  if executor.persistent then database else none

def getContractCode (address : Address) : Option Bytes :=
  ((executor.store database).bind fun store => store.getContractCode address).or
    (executor.state.contracts.lookup address)

def getAccountNonce (address : Address) : U64 :=
  ((executor.store database).bind fun store => store.getNonce address).getD
    (executor.state.getNonce address)

def getAccountBalance (address : Address) : U128 :=
  ((executor.store database).bind fun store => store.getBalance address).getD
    (executor.state.getBalance address)

def getContractStorage (address : Address) (key : Hash) : Option Hash :=
  (executor.store database).bind fun store => store.getContractStorage address key

def updateBlockHash (blockNumber : U64) (hash : Hash) : EvmExecutor :=
  { executor with blockHashes :=
    (if 256 ≤ executor.blockHashes.length then executor.blockHashes.tail else executor.blockHashes)
      ++ [(blockNumber, hash)] }

def backend (tx : Transaction) (blockNumber blockTimestamp : U64) : EvmBackend where
  gasPrice := if 0 < tx.fee ∧ 0 < tx.gasLimit then tx.gasPrice else 1
  origin := tx.from
  blockNumber
  blockTimestamp
  blockGasLimit := tx.gasLimit
  chainId := tx.chainId.getD 11567
  accountExists := fun address =>
    ((executor.getContractCode database address).any fun code => !code.isEmpty) ||
      decide (0 < executor.state.getBalance address) || decide (0 < executor.state.getNonce address)
  balance := executor.getAccountBalance database
  nonce := executor.getAccountNonce database
  code := fun address => (executor.getContractCode database address).getD []
  storage := fun address key => (executor.getContractStorage database address key).getD 0
  originalStorage := executor.getContractStorage database
  blockHash := fun number =>
    ((executor.blockHashes.find? fun entry => decide (entry.1 = number)).map Prod.snd).getD 0

/-- The memory of the executor, and the batch of its writes to the database. -/
structure Commit where
  state : EvmState
  batch : Option StateDatabase

namespace Commit

variable (commit : Commit) (address : Address)

def putBalance (balance : U128) : Commit where
  state := commit.state.setBalance address balance
  batch := commit.batch.map fun batch => batch.putBalance address balance

def putNonce (nonce : U64) : Commit where
  state := commit.state.setNonce address nonce
  batch := commit.batch.map fun batch => batch.putNonce address nonce

def putContractCode (code : Bytes) : Commit where
  state := commit.state.storeContract address code
  batch := commit.batch.map fun batch => batch.putContractCode address code

/-- Storage is kept in the database only. -/
def putStorage (slots : List (Hash × Hash)) : Commit where
  state := commit.state
  batch := commit.batch.map fun batch =>
    slots.foldl (fun batch slot => batch.putContractStorage address slot.1 slot.2) batch

/-- One change of an execution. A balance or a nonce that does not fit its type panics. The request
to reset the storage is ignored. -/
def apply : EvmChange → Option Commit
  | .modify address balance nonce code storage _ =>
    if 2 ^ 128 ≤ balance ∨ 2 ^ 64 ≤ nonce then
      none
    else
      let balance := BitVec.ofNat 128 balance
      let nonce := BitVec.ofNat 64 nonce
      let commit :=
        if 0 < balance ∨ 0 < commit.state.getBalance address then
          commit.putBalance address balance
        else
          commit
      let commit :=
        if 0 < nonce ∨ 0 < commit.state.getNonce address then commit.putNonce address nonce
        else commit
      let commit :=
        match code with
        | some code => if code.isEmpty then commit else commit.putContractCode address code
        | none => commit
      some (commit.putStorage address storage)
  | .delete address => some ((commit.putBalance address 0).putNonce address 0)

end Commit

/-- What a transaction made of the executor and the database. -/
structure Execution where
  executor : EvmExecutor
  database : Option StateDatabase
  output : Bytes
  gasUsed : U64
  logs : List EvmLog

def generateContractAddress (crypto : Crypto) (sender : Address) (nonce : U64) : Address :=
  let payload := crypto.rlp.slice (Bytes.be sender) ++ crypto.rlp.u64 nonce
  let header : Bytes :=
    if payload.length < 56 then
      [BitVec.ofNat 8 (0xc0 + payload.length)]
    else
      let length := (Bytes.be (BitVec.ofNat 64 payload.length)).dropWhile fun byte =>
        decide (byte = 0)
      BitVec.ofNat 8 (0xf7 + length.length) :: length
  crypto.deriveEthAddress (header ++ payload)

/-- Writes the changes of a successful execution. What a panic between two of them leaves behind
is not kept. -/
def commitChanges (changes : List EvmChange) : Option (EvmExecutor × Option StateDatabase) :=
  (changes.foldlM Commit.apply { state := executor.state, batch := executor.store database }).map
    fun commit =>
      ({ executor with state := commit.state },
        if executor.persistent then commit.batch else database)

/-- Runs the interpreter and keeps its changes. `error none` is a panic. -/
def executeSputnik (crypto : Crypto) (interpreter : EvmInterpreter) (tx : Transaction)
    (blockNumber blockTimestamp : U64) : Except (Option String) Execution :=
  match interpreter (executor.backend database tx blockNumber blockTimestamp) tx with
  | .error reason => .error (some reason)
  | .ok success =>
    match executor.commitChanges database success.changes with
    | none => .error none
    | some (committed, stored) =>
      .ok
        { executor := committed
          database := stored
          output :=
            if tx.to = Address.zero ∧ tx.data ≠ [] then
              Bytes.be (generateContractAddress crypto tx.from
                (executor.getAccountNonce database tx.from))
            else
              success.output
          gasUsed := success.gasUsed
          logs := success.logs }

/-- A transaction without data is left to the chain. -/
def executeTransaction (crypto : Crypto) (interpreter : EvmInterpreter) (tx : Transaction)
    (blockNumber blockTimestamp : U64) : Except (Option String) Execution :=
  if tx.data = [] then
    if 0 < tx.value then
      .ok { executor, database, output := [], gasUsed := 21000, logs := [] }
    else
      .error (some "Not an EVM transaction")
  else if tx.to ≠ Address.zero ∧ ((executor.getContractCode database tx.to).getD []).isEmpty then
    .error (some s!"No contract code found at address 0x{hexEncode (Bytes.be tx.to)}")
  else
    executor.executeSputnik database crypto interpreter tx blockNumber blockTimestamp

end EvmExecutor

end IronDag
