import IronDag.Chain.Block
import IronDag.Lib.Collections
import IronDag.Lib.Table

namespace IronDag

/-- The part of the database that the DAG storage owns. -/
structure DagDatabase where
  blocks : Table Hash Block
  parents : Table Hash (List Hash)
  children : Table Hash (List Hash)
  checkpointMeta : Option (Hash × U64)
  checkpointBlueSet : Finset Hash
  checkpointBlueScores : Table Hash U64
  checkpointOrdering : List Hash

def DagDatabase.empty : DagDatabase where
  blocks := ∅
  parents := ∅
  children := ∅
  checkpointMeta := none
  checkpointBlueSet := ∅
  checkpointBlueScores := ∅
  checkpointOrdering := []

/-- Every stored block, by block number. The scan itself goes through the keys in ascending
order. -/
def DagDatabase.getAllBlocks (database : DagDatabase) : List Block :=
  let scan := SetIteration.ascendingBy BitVec.toNat Hash.toNat_injective
  ((scan.toList database.blocks.keys).filterMap database.blocks.lookup).insertionSort
    (SetIteration.KeyLE fun block : Block => block.header.blockNumber.toNat)

structure DagStorage where
  database : Option DagDatabase
  hotBlocks : Table Hash Block
  /-- Insertion order, oldest first. -/
  hotBlocksOrder : List Hash
  hotChildren : Table Hash (List Hash)
  hotBlueSet : Finset Hash
  finalizedBlocks : Finset Hash
  hotCacheSize : Nat
  confirmationsForCheckpoint : Nat
  blocksSinceCheckpoint : Nat

namespace DagStorage

/-- Storage with the default configuration, over a database or in memory only. -/
def new (database : Option DagDatabase) : DagStorage where
  database := database
  hotBlocks := ∅
  hotBlocksOrder := []
  hotChildren := ∅
  hotBlueSet := ∅
  finalizedBlocks := ∅
  hotCacheSize := 1000
  confirmationsForCheckpoint := 100
  blocksSinceCheckpoint := 0

variable (storage : DagStorage)

def getBlock (hash : Hash) : Option Block :=
  match storage.hotBlocks.lookup hash with
  | some block => some block
  | none => storage.database.bind fun database => database.blocks.lookup hash

def getChildren (hash : Hash) : List Hash :=
  match storage.hotChildren.lookup hash with
  | some children => children
  | none => (storage.database.bind fun database => database.children.lookup hash).getD []

def setChildren (hash : Hash) (children : List Hash) : DagStorage :=
  { storage with hotChildren := storage.hotChildren.insert hash children }

/-- Persists `child` among the children of `parent`; the hot list follows if there is one. -/
def persistChild (child : Hash) (storage : DagStorage) (parent : Hash) : DagStorage :=
  match storage.database with
  | none => storage
  | some database =>
    let known := storage.getChildren parent
    if child ∈ known then
      storage
    else
      let children := known ++ [child]
      { storage with
        database := some { database with children := database.children.insert parent children }
        hotChildren :=
          if parent ∈ storage.hotChildren then storage.hotChildren.insert parent children
          else storage.hotChildren }

def evict : Nat → List Hash → DagStorage → DagStorage
  | 0, order, storage => { storage with hotBlocksOrder := order }
  | _ + 1, [], storage => { storage with hotBlocksOrder := [] }
  | count + 1, hash :: order, storage =>
    if hash ∈ storage.hotBlocks then
      evict count order
        { storage with
          hotBlocks := storage.hotBlocks.erase hash
          hotChildren := storage.hotChildren.erase hash
          hotBlueSet := storage.hotBlueSet.erase hash
          finalizedBlocks := insert hash storage.finalizedBlocks }
    else
      evict (count + 1) order storage

def pruneHotCache : DagStorage :=
  let excess := storage.hotBlocks.keys.card - storage.hotCacheSize
  if excess = 0 then storage else evict excess storage.hotBlocksOrder storage

def cacheBlock (block : Block) : DagStorage :=
  { storage with
    hotBlocksOrder :=
      if block.hash ∈ storage.hotBlocks then storage.hotBlocksOrder
      else storage.hotBlocksOrder ++ [block.hash]
    hotBlocks := storage.hotBlocks.insert block.hash block }

def persistBlock (block : Block) : DagStorage :=
  let stored := { storage with
    database := storage.database.map fun database =>
      { database with
        blocks := database.blocks.insert block.hash block
        parents := database.parents.insert block.hash block.header.parentHashes } }
  block.header.parentHashes.foldl (persistChild block.hash) stored

def addBlock (block : Block) : DagStorage :=
  let stored := (storage.cacheBlock block).persistBlock block
  if stored.hotCacheSize < stored.hotBlocks.keys.card then stored.pruneHotCache else stored

/-- Drops one block from the cache and marks it as finalized. -/
def finalize (storage : DagStorage) (hash : Hash) : DagStorage :=
  { storage with
    hotBlocks := storage.hotBlocks.erase hash
    hotChildren := storage.hotChildren.erase hash
    hotBlueSet := storage.hotBlueSet.erase hash
    finalizedBlocks := insert hash storage.finalizedBlocks }

def pruneBlocksByHash (hashes : List Hash) : DagStorage :=
  let dropped := hashes.foldl finalize storage
  { dropped with hotBlocksOrder := dropped.hotBlocksOrder.filter (· ∉ hashes) }

/-- Drops the cached blocks below the finality threshold that are not in the hot blue set. -/
def pruneRedBlocks (currentHeight finalityDepth : U64) : DagStorage :=
  if currentHeight ≤ finalityDepth then
    storage
  else
    let old := Table.retain (fun hash block =>
      decide (hash ∉ storage.hotBlueSet ∧ block.header.blockNumber < currentHeight - finalityDepth))
      storage.hotBlocks
    { storage with
      hotBlocks := Table.retain (fun hash _ => decide (hash ∉ old)) storage.hotBlocks
      hotChildren := Table.retain (fun hash _ => decide (hash ∉ old)) storage.hotChildren
      finalizedBlocks := storage.finalizedBlocks ∪ old.keys
      hotBlocksOrder := storage.hotBlocksOrder.filter (· ∉ old) }

/-- Saves the consensus state. Scores of earlier checkpoints stay unless they are overwritten. -/
def saveCheckpoint (genesisHash : Option Hash) (blueSet : Finset Hash) (blueScores : Table Hash U64)
    (ordering : List Hash) : DagStorage :=
  { storage with
    database := storage.database.map fun database =>
      { database with
        checkpointMeta := some (genesisHash.getD 0, BitVec.ofNat 64 ordering.length)
        checkpointBlueSet := blueSet
        checkpointBlueScores := blueScores ∪ database.checkpointBlueScores
        checkpointOrdering := ordering } }

/-- The consensus state of the last checkpoint. A zero genesis hash stands for none, and a
checkpoint without blocks is ignored. -/
def loadCheckpoint : Option (Option Hash × Finset Hash × Table Hash U64 × List Hash) :=
  storage.database.bind fun database =>
    database.checkpointMeta.bind fun (genesisHash, _) =>
      if database.checkpointBlueSet = ∅ ∧ database.checkpointOrdering = [] then
        none
      else
        some (if genesisHash = 0 then none else some genesisHash, database.checkpointBlueSet,
          database.checkpointBlueScores, database.checkpointOrdering)

/-- How many entries the child lists have, in the cache and on disk. -/
def childEntries : Nat :=
  (storage.hotChildren.entries.map fun entry => entry.2.length).sum +
    (storage.database.elim 0 fun database =>
      (database.children.entries.map fun entry => entry.2.length).sum)

/-- No more than `childEntries` hashes are a child of anything. -/
theorem exists_all_children : ∃ hashes : List Hash, hashes.length = storage.childEntries ∧
    ∀ parent, ∀ child ∈ storage.getChildren parent, child ∈ hashes := by
  let listed : Table Hash (List Hash) → Multiset Hash := fun children =>
    children.entries.bind fun entry => (entry.2 : Multiset Hash)
  have listed_card : ∀ children, (listed children).card =
      (children.entries.map fun entry => entry.2.length).sum := by
    simp [listed, Function.comp_def]
  have mem_listed : ∀ (children : Table Hash (List Hash)) parent list,
      children.lookup parent = some list → ∀ child ∈ list, child ∈ listed children := by
    intro children parent list found child member
    exact Multiset.mem_bind.mpr ⟨⟨parent, list⟩, Finmap.lookup_eq_some_iff.mp found, member⟩
  refine ⟨(listed storage.hotChildren +
    storage.database.elim 0 fun database => listed database.children).toList, ?_, ?_⟩
  · rw [Multiset.length_toList, Multiset.card_add, listed_card, childEntries]
    cases storage.database with
    | none => rfl
    | some database => exact congrArg _ (listed_card _)
  · intro parent child member
    rw [Multiset.mem_toList, Multiset.mem_add]
    unfold getChildren at member
    cases hot : storage.hotChildren.lookup parent with
    | some list =>
      rw [hot] at member
      exact .inl (mem_listed _ parent list hot child member)
    | none =>
      rw [hot] at member
      cases present : storage.database with
      | none => simp [present] at member
      | some database =>
        cases cold : database.children.lookup parent with
        | none => simp [present, cold] at member
        | some list =>
          simp only [present, Option.bind_some, cold] at member
          exact .inr (mem_listed _ parent list cold child member)

end DagStorage

end IronDag
