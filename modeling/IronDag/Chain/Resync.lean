import IronDag.Chain.Blockchain

/-!
Lookups of blocks and transactions, and the operations of a node that replace its chain: trusted
checkpoints from a pruned peer, clearing for a resync, and loading from storage at the start.
-/

namespace IronDag

/-- Removes what has a binary key of the block and state stores. The keys of the checkpoint stay. -/
def DagDatabase.clearAll (database : DagDatabase) : DagDatabase :=
  { database with blocks := ∅, parents := ∅, children := ∅ }

namespace DagStorage

variable (storage : DagStorage)

/-- Empties the caches. The database is left alone. -/
def clear : DagStorage :=
  { storage with
    hotBlocks := ∅
    hotBlocksOrder := []
    hotChildren := ∅
    hotBlueSet := ∅
    finalizedBlocks := ∅
    blocksSinceCheckpoint := 0 }

/-- A change that comes through the database of the chain. -/
def mapDatabase (change : DagDatabase → DagDatabase) : DagStorage :=
  { storage with database := storage.database.map change }

end DagStorage

namespace GhostDag

variable (dag : GhostDag)

def clear : GhostDag :=
  { dag with
    genesisHash := none
    blueSet := ∅
    redSet := ∅
    blueScore := ∅
    blockTimestamps := ∅
    ordering := []
    storage := dag.storage.clear }

/-- Up to `k` blocks without children, blue ones by descending score; the genesis block if there
are none. -/
def getTips (iteration : SetIteration Hash) (k : Nat) : List Hash :=
  if dag.blueSet = ∅ ∧ dag.redSet = ∅ then
    []
  else
    match dag.genesisHash with
    | none => []
    | some genesis =>
      let childless := fun hash => (dag.storage.getChildren hash).isEmpty
      let blue := ((iteration.toList dag.blueSet).filter childless).map fun hash =>
        (hash, dag.scoreOf hash)
      let red := ((iteration.toList dag.redSet).filter childless).map fun hash => (hash, (0 : U64))
      if blue ++ red = [] then
        [genesis]
      else
        (((blue ++ red).insertionSort (fun left right => right.2 ≤ left.2)).take k).map Prod.fst

end GhostDag

namespace Blockchain

variable (chain : Blockchain)

/-- The block at a position of the list. An index past the end panics. -/
def blockAt (position : Nat) : Except ChainFault Block :=
  match chain.blocks.blocks[position]? with
  | some block => .ok block
  | none => .error .panic

def getBlockByHash (hash : Hash) : Except ChainFault (Option Block) :=
  match chain.blocks.blockByHash.lookup hash with
  | some position => (chain.blockAt position).map some
  | none => .ok (chain.database.bind fun database => database.getBlock hash)

def getBlockByNumber (number : U64) : Except ChainFault (Option Block) :=
  match chain.blocks.blockByNumber.lookup number with
  | some position => (chain.blockAt position).map some
  | none => .ok none

/-- The block, the transaction and its position in the block. -/
def getTransactionByHash (hash : Hash) : Except ChainFault (Option (Block × Transaction × Nat)) :=
  match chain.blocks.txByHash.lookup hash with
  | none => .ok none
  | some (position, txIndex) =>
    (chain.blockAt position).bind fun block =>
      match block.transactions[txIndex]? with
      | some tx => .ok (some (block, tx, txIndex))
      | none => .error .panic

def transactionCount : Nat :=
  (chain.blocks.blocks.map fun block => block.transactions.length).sum

/-- Stores a block in the database of the chain, which is also that of the DAG. -/
def storeBlock (block : Block) : Blockchain :=
  match chain.database with
  | none => chain
  | some database =>
    { chain with
      database := some (database.putBlock block)
      ghostdag := chain.ghostdag.map fun dag =>
        { dag with storage := dag.storage.mapDatabase fun store =>
            { store with blocks := store.blocks.insert block.hash block } } }

/-- Installs a block without any check. Its transactions are counted, but they are not indexed. -/
def installSyncCheckpoint (block : Block) : Bool × Blockchain :=
  if block.hash ∈ chain.blocks.blockHashes then
    (false, chain)
  else
    let stored := chain.storeBlock block
    let position := chain.blocks.blocks.length
    (true, { stored with
      blocks := { stored.blocks with
        blocks := stored.blocks.blocks ++ [block]
        blockHashes := insert block.hash stored.blocks.blockHashes
        blockByHash := stored.blocks.blockByHash.insert block.hash position
        blockByNumber := stored.blocks.blockByNumber.insert block.header.blockNumber position }
      cachedLatestBlockNumber :=
        if stored.cachedLatestBlockNumber < block.header.blockNumber then block.header.blockNumber
        else stored.cachedLatestBlockNumber
      cachedTotalTxCount := stored.cachedTotalTxCount + BitVec.ofNat 64 block.transactions.length })

/-- Empties the chain to adopt that of a peer. -/
def clearForResync : Blockchain :=
  { chain with
    blocks := { chain.blocks with blocks := [], blockHashes := ∅ }
    database := chain.database.map StateDatabase.clearAll
    cachedLatestBlockNumber := 0
    cachedTotalTxCount := 0
    ghostdag := chain.ghostdag.map fun dag =>
      GhostDag.clear { dag with storage :=
        if chain.database.isSome then dag.storage.mapDatabase DagDatabase.clearAll else
          dag.storage }
    spentOutputs := ∅ }

/-- Takes the stored blocks into memory by ascending number, and stores them once more. -/
def loadFromStorage : Blockchain :=
  match chain.database with
  | none => chain
  | some database =>
    let storedBlocks := database.getAllBlocks
    if storedBlocks = [] then
      chain
    else
      let sorted := storedBlocks.insertionSort
        (SetIteration.KeyLE fun block : Block => block.header.blockNumber.toNat)
      let loaded : Blockchain :=
        { chain with
          blocks := sorted.foldl pushBlock chain.blocks
          cachedLatestBlockNumber := sorted.foldl (fun best (block : Block) =>
            if best < block.header.blockNumber then block.header.blockNumber else best) 0
          cachedTotalTxCount := sorted.foldl (fun total (block : Block) =>
            total + BitVec.ofNat 64 block.transactions.length) 0 }
      loaded.blocks.blocks.foldl storeBlock loaded

/-- A node over a database. -/
def withStorage (database : StateDatabase) (dagDatabase : DagDatabase) : Blockchain :=
  loadFromStorage
    { Blockchain.new with
      database := some database
      ghostdag := some (GhostDag.withDatabase dagDatabase) }

/-- A node over a database that keeps its accounts in a Verkle state. -/
def withStorageAndVerkle (database : StateDatabase) (dagDatabase : DagDatabase) : Blockchain :=
  loadFromStorage
    { Blockchain.new with
      database := some database
      ghostdag := some (GhostDag.withDatabase dagDatabase)
      verkleState := some ∅ }

end Blockchain

end IronDag
