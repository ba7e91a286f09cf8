import IronDag.Storage.BlockStore

/-! The account state in the database. Operations of the database are taken never to fail. -/

namespace IronDag

structure AccountState where
  balance : U128
  nonce : U64
  deriving DecidableEq, Repr

structure EvmLog where
  address : Address
  topics : List Hash
  data : Bytes
  deriving DecidableEq, Repr

structure TxReceipt where
  success : Bool
  gasUsed : U64
  logs : List EvmLog
  contractAddress : Option Address
  deriving DecidableEq, Repr

/-- What the node keeps under the keys of the state store and of the block store. Entries under
textual keys, and blocks under a one-byte prefix or their bare hash, were left by older versions and
are only read. -/
structure StateDatabase where
  balances : Table Address U128
  legacyBalances : Table Address U128
  nonces : Table Address U64
  legacyNonces : Table Address U64
  contracts : Table Address Bytes
  legacyContracts : Table Address Bytes
  storage : Table (Address × Hash) Hash
  legacyStorage : Table (Address × Hash) Hash
  receipts : Table Hash TxReceipt
  blocks : Table Hash Block
  prefixedBlocks : Table Hash Block
  rawBlocks : Table Hash Block

namespace StateDatabase

def empty : StateDatabase where
  balances := ∅
  legacyBalances := ∅
  nonces := ∅
  legacyNonces := ∅
  contracts := ∅
  legacyContracts := ∅
  storage := ∅
  legacyStorage := ∅
  receipts := ∅
  blocks := ∅
  prefixedBlocks := ∅
  rawBlocks := ∅

variable (database : StateDatabase)

def getBalance (address : Address) : Option U128 :=
  (database.balances.lookup address).or (database.legacyBalances.lookup address)

def putBalance (address : Address) (balance : U128) : StateDatabase :=
  { database with balances := database.balances.insert address balance }

def getNonce (address : Address) : Option U64 :=
  (database.nonces.lookup address).or (database.legacyNonces.lookup address)

def putNonce (address : Address) (nonce : U64) : StateDatabase :=
  { database with nonces := database.nonces.insert address nonce }

def getContractCode (address : Address) : Option Bytes :=
  (database.contracts.lookup address).or (database.legacyContracts.lookup address)

def putContractCode (address : Address) (code : Bytes) : StateDatabase :=
  { database with contracts := database.contracts.insert address code }

def getContractStorage (address : Address) (key : Hash) : Option Hash :=
  (database.storage.lookup (address, key)).or (database.legacyStorage.lookup (address, key))

def putContractStorage (address : Address) (key value : Hash) : StateDatabase :=
  { database with storage := database.storage.insert (address, key) value }

def putReceipt (hash : Hash) (receipt : TxReceipt) : StateDatabase :=
  { database with receipts := database.receipts.insert hash receipt }

def putBlock (block : Block) : StateDatabase :=
  { database with blocks := database.blocks.insert block.hash block }

def getBlock (hash : Hash) : Option Block :=
  (database.blocks.lookup hash).or (database.rawBlocks.lookup hash)

/-- The blocks of a table under the keys of their version. -/
def scan (table : Table Hash Block) (key : Hash → Bytes) : List (Bytes × Block) :=
  let hashes := SetIteration.ascendingBy BitVec.toNat Hash.toNat_injective
  (hashes.toList table.keys).filterMap fun hash => (table.lookup hash).map fun block =>
    (key hash, block)

/-- The blocks of all versions in the order of their keys. -/
def blockEntries : List (Bytes × Block) :=
  (scan database.blocks Database.blockKey ++
      scan database.prefixedBlocks (fun hash => Database.LegacyPrefix.block :: Bytes.be hash) ++
      scan database.rawBlocks Bytes.be).insertionSort fun left right => left.1 ≤ right.1

def getAllBlocks : List Block :=
  BlockStore.getAllBlocks database.blockEntries

/-- Removes what has a binary key. Textual keys stay. -/
def clearAll : StateDatabase :=
  { database with
    balances := ∅
    nonces := ∅
    contracts := ∅
    storage := ∅
    receipts := ∅
    blocks := ∅
    prefixedBlocks := ∅
    rawBlocks := ∅ }

section Reads

variable (written address : Address)

variable {balance : U128} {code : Bytes} {nonce : U64} {value : Hash} {key : Hash}

@[simp] theorem getBalance_putBalance : (database.putBalance written balance).getBalance address =
      if address = written then some balance else database.getBalance address := by
  simp only [getBalance, putBalance, Table.lookup_write]
  split <;> rfl

@[simp] theorem getNonce_putNonce : (database.putNonce written nonce).getNonce address =
      if address = written then some nonce else database.getNonce address := by
  simp only [getNonce, putNonce, Table.lookup_write]
  split <;> rfl

@[simp] theorem getNonce_putBalance :
    (database.putBalance written balance).getNonce address = database.getNonce address := rfl

@[simp] theorem getBalance_putNonce :
    (database.putNonce written nonce).getBalance address = database.getBalance address := rfl

@[simp] theorem getContractCode_putBalance :
    (database.putBalance written balance).getContractCode address =
      database.getContractCode address := rfl

@[simp] theorem getContractCode_putNonce :
    (database.putNonce written nonce).getContractCode address =
      database.getContractCode address := rfl

@[simp] theorem getContractStorage_putBalance :
    (database.putBalance written balance).getContractStorage address key =
      database.getContractStorage address key := rfl

@[simp] theorem getContractStorage_putNonce :
    (database.putNonce written nonce).getContractStorage address key =
      database.getContractStorage address key := rfl

@[simp] theorem getContractCode_putContractCode :
    (database.putContractCode written code).getContractCode address =
      if address = written then some code else database.getContractCode address := by
  simp only [getContractCode, putContractCode, Table.lookup_write]
  split <;> rfl

@[simp] theorem getBalance_putContractCode :
    (database.putContractCode written code).getBalance address = database.getBalance address := rfl

@[simp] theorem getNonce_putContractCode :
    (database.putContractCode written code).getNonce address = database.getNonce address := rfl

@[simp] theorem getContractStorage_putContractCode :
    (database.putContractCode written code).getContractStorage address key =
      database.getContractStorage address key :=
  rfl

@[simp] theorem getBalance_putContractStorage :
    (database.putContractStorage written slot value).getBalance address =
      database.getBalance address := rfl

@[simp] theorem getNonce_putContractStorage :
    (database.putContractStorage written slot value).getNonce address =
      database.getNonce address := rfl

@[simp] theorem getContractCode_putContractStorage :
    (database.putContractStorage written slot value).getContractCode address =
      database.getContractCode address := rfl

@[simp] theorem getContractStorage_putContractStorage {key value : Hash} :
    (database.putContractStorage written slot value).getContractStorage address key =
      if address = written ∧ key = slot then some value
      else database.getContractStorage address key := by
  simp only [getContractStorage, putContractStorage, Table.lookup_write, Prod.mk.injEq]
  split <;> rfl

end Reads

end StateDatabase

end IronDag
