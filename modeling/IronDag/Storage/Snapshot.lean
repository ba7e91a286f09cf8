import IronDag.Lib.Collections
import IronDag.Lib.Vec
import IronDag.Storage.MigratedReads

namespace IronDag

structure AccountSnapshot where
  address : Address
  balance : U128
  nonce : U64
  code : Option Bytes
  deriving DecidableEq

structure StorageEntry where
  address : Address
  key : BitVec 256
  value : Bytes
  deriving DecidableEq

structure TopAccountInfo where
  address : Address
  balance : U128
  nonce : U64
  hasCode : Bool
  deriving DecidableEq

structure SnapshotMetadata where
  version : BitVec 32
  blockNumber : U64
  blockHash : Hash
  createdAt : U64
  accountCount : ℕ
  blockCount : ℕ
  stateSizeBytes : U64
  topAccounts : List TopAccountInfo
  deriving DecidableEq

structure BlockchainSnapshot where
  metadata : SnapshotMetadata
  accounts : List AccountSnapshot
  storage : List StorageEntry
  blocks : List Block

namespace Database

/-- The writes of a batch, in order. An entity stands for its current key. -/
abbrev Batch := List (Entity × Bytes)

def commitBatch (database : Database) (batch : Batch) : Database :=
  batch.foldl (fun database write => database.insert write.1.key write.2) database

namespace SnapshotManager

def snapshotVersion : BitVec 32 := 2

/-- The accounts of the caller's map, each with the code the database has for it. -/
def snapshotAccounts (codec : StorageCodec) (source : Database)
    (accounts : Table Address (U128 × U64)) :
    List Address → Except BlockchainError (List AccountSnapshot)
  | [] => .ok []
  | address :: rest => do
      let code ← source.getContractCode codec address
      let (balance, nonce) := accounts.getD address (0, 0)
      let others ← snapshotAccounts codec source accounts rest
      return { address, balance, nonce, code } :: others

/-- The slots under keys that are `front`, an address and a slot. -/
def slotsUnder (front : Bytes) (source : Database) : List StorageEntry :=
  (StorageMigrator.iter source).filterMap fun entry =>
    if front.isPrefixOf entry.1 ∧ entry.1.length = front.length + 52 then
      let rest := entry.1.drop front.length
      some { address := Bytes.ofBE 160 (rest.take 20), key :=
        Bytes.ofBE 256 (rest.drop 20), value := entry.2 }
    else
      none

/-- Older formats are scanned only where the newer ones hold no slot at all. -/
def snapshotStorage (source : Database) : List StorageEntry :=
  let versioned := slotsUnder [storageVersion, KeyPrefix.contractStorage] source
  if versioned = [] then
    let prefixed := slotsUnder [LegacyPrefix.storage] source
    if prefixed = [] then slotsUnder [] source else prefixed
  else
    versioned

/-- A rough estimate. -/
def sizeBytes (accounts : List AccountSnapshot) (storage : List StorageEntry)
    (blocks : List Block) : U64 :=
  BitVec.ofNat 64 (accounts.length * 200 + storage.length * 100 + blocks.length * 500)

/-- The ten accounts with the highest balances. -/
def topAccounts (accounts : List AccountSnapshot) : List TopAccountInfo :=
  ((Vec.sortBy (fun left right => compare right.balance.toNat left.balance.toNat) accounts).take
    10).map fun account =>
      { address := account.address, balance := account.balance, nonce := account.nonce,
        hasCode := account.code.isSome }

/-- The order is the one in which the caller's map is iterated. -/
def createSnapshot (codec : StorageCodec) (order : SetIteration Address) (now : U64)
    (source : Database)
    (currentBlockNumber : U64) (currentBlockHash : Hash) (accounts : Table Address (U128 × U64))
    (recentBlocks : List Block) : Except BlockchainError BlockchainSnapshot := do
  let accounts ← snapshotAccounts codec source accounts (order.toList accounts.keys)
  let storage := snapshotStorage source
  return {
    metadata := {
      version := snapshotVersion
      blockNumber := currentBlockNumber
      blockHash := currentBlockHash
      createdAt := now
      accountCount := accounts.length
      blockCount := recentBlocks.length
      stateSizeBytes := sizeBytes accounts storage recentBlocks
      topAccounts := topAccounts accounts }
    accounts := accounts
    storage := storage
    blocks := recentBlocks }

def putAccount (codec : StorageCodec) (account : AccountSnapshot) : Batch :=
  [(.balance account.address, Bytes.le account.balance),
    (.nonce account.address, Bytes.le account.nonce)] ++
    (account.code.map fun code =>
      (.contract account.address, compressIfBeneficial codec code)).toList

def putStorage (entry : StorageEntry) : Entity × Bytes :=
  (.storage entry.address entry.key, entry.value)

def putBlocks (codec : StorageCodec) : List Block → Except BlockchainError Batch
  | [] => .ok []
  | block :: rest =>
    match codec.serializeBlock block with
    | .error reason => .error (.unknown s!"Serialization error: {reason}")
    | .ok value => do
        let others ← putBlocks codec rest
        return (.block block.hash, value) :: others

/-- All writes go to the target in one batch; nothing is removed from it. -/
def restoreSnapshot (codec : StorageCodec) (target : Database) (snapshot : BlockchainSnapshot) :
    Except BlockchainError Database := do
  let blocks ← putBlocks codec snapshot.blocks
  return target.commitBatch
    (snapshot.accounts.flatMap (putAccount codec) ++ snapshot.storage.map putStorage ++ blocks)

end SnapshotManager

end Database

end IronDag
