import IronDag.Consensus.Storage
import IronDag.Lib.Traversal
import Mathlib.Order.Lattice.Nat

namespace IronDag

structure GhostDag where
  storage : DagStorage
  genesisHash : Option Hash
  blueSet : Finset Hash
  redSet : Finset Hash
  blueScore : Table Hash U64
  blockTimestamps : Table Hash U64
  /-- Tip first. -/
  ordering : List Hash
  checkpointStaleRebuilt : Bool

/-- A block with what the full sort compares. -/
structure RankedBlock where
  hash : Hash
  score : U64
  timestamp : U64
  deriving DecidableEq, Repr

/-- Higher scores come first, then earlier timestamps. -/
def RankedBlock.Precedes (left right : RankedBlock) : Prop :=
  right.score < left.score ∨ left.score = right.score ∧ left.timestamp ≤ right.timestamp

instance : DecidableRel RankedBlock.Precedes := fun _ _ =>
  inferInstanceAs (Decidable (_ ∨ _))

def maxScore : List U64 → Option U64
  | [] => none
  | score :: rest => some (rest.foldl (fun best next => if best ≤ next then next else best) score)

namespace GhostDag

def new (database : Option DagDatabase) : GhostDag where
  storage := DagStorage.new database
  genesisHash := none
  blueSet := ∅
  redSet := ∅
  blueScore := ∅
  blockTimestamps := ∅
  ordering := []
  checkpointStaleRebuilt := false

def parentScores (dag : GhostDag) (parents : List Hash) : List U64 :=
  (parents.filter (· ∈ dag.blueSet)).filterMap dag.blueScore.lookup

def scoreOf (dag : GhostDag) (hash : Hash) : U64 :=
  (dag.blueScore.lookup hash).getD 0

def timestampOf (dag : GhostDag) (hash : Hash) : U64 :=
  (dag.blockTimestamps.lookup hash).getD 0

def markBlue (dag : GhostDag) (hash : Hash) (score : U64) : GhostDag :=
  { dag with blueScore := dag.blueScore.insert hash score, blueSet := insert hash dag.blueSet }

def markRed (dag : GhostDag) (hash : Hash) : GhostDag :=
  { dag with redSet := insert hash dag.redSet }

/-- Colours a block at the moment the traversal first reaches it. -/
def scoreChild (dag : GhostDag) (child : Hash) : GhostDag :=
  match dag.storage.getBlock child with
  | none => dag
  | some block =>
    match maxScore (dag.parentScores block.header.parentHashes) with
    | some best => dag.markBlue child (best + 1)
    | none => dag.markRed child

/-- The blue blocks in their final order, out of one iteration over the blue set. -/
def sortedOrdering (iteration : SetIteration Hash) (dag : GhostDag) : List Hash :=
  let ranked := (iteration.toList dag.blueSet).filterMap fun hash =>
    (dag.storage.getBlock hash).map fun block =>
      { hash, score := dag.scoreOf hash, timestamp := block.header.timestamp : RankedBlock }
  (ranked.insertionSort RankedBlock.Precedes).map RankedBlock.hash

/-- Only the genesis block is coloured. -/
def resetTo (dag : GhostDag) (genesis : Hash) : GhostDag :=
  { dag with
    blueScore := (∅ : Table Hash U64).insert genesis 1
    blueSet := {genesis}
    redSet := ∅ }

/-- Each child entry can put one hash into the queue, next to the genesis block. -/
def traversalFuel (dag : GhostDag) : Nat :=
  dag.storage.childEntries + 1

def updateBlueSet (iteration : SetIteration Hash) (dag : GhostDag) : GhostDag :=
  match dag.genesisHash with
  | none => dag
  | some genesis =>
    match dag.storage.getBlock genesis with
    | none => dag
    | some block =>
      if block.header.parentHashes ≠ [] then
        dag
      else
        let scored := Traversal.visitBreadthFirst dag.storage.getChildren scoreChild
          dag.traversalFuel [genesis] [genesis] (dag.resetTo genesis)
        { scored with ordering := scored.sortedOrdering iteration }

def rebuildFromScratch (iteration : SetIteration Hash) (dag : GhostDag) : GhostDag :=
  dag.updateBlueSet iteration

/-- A parent of the new block is cached, but none of its parents is blue. -/
def staleCheckpoint (dag : GhostDag) (newHash : Hash) : Bool :=
  match dag.storage.getBlock newHash with
  | none => false
  | some block =>
    block.header.parentHashes.any (· ∈ dag.storage.hotBlocks) &&
      !block.header.parentHashes.any (· ∈ dag.blueSet)

/-- Colours the cached parents of the new block blue, above every score so far. -/
def adoptHotParents (dag : GhostDag) (newHash : Hash) : GhostDag :=
  match dag.storage.getBlock newHash with
  | none => dag
  | some block =>
    let nextScore : U64 :=
      BitVec.ofNat 64 (dag.blueScore.keys.sup fun hash => (dag.scoreOf hash).toNat) + 1
    block.header.parentHashes.foldl (fun dag parent =>
      if parent ∈ dag.storage.hotBlocks ∧ parent ∉ dag.blueSet then
        { dag with
          blueSet := insert parent dag.blueSet
          blueScore :=
            if parent ∈ dag.blueScore then dag.blueScore
            else dag.blueScore.insert parent nextScore }
      else
        dag) dag

def affectedBy (dag : GhostDag) (newHash : Hash) : Finset Hash :=
  if dag.storage.getChildren newHash = [] then
    {newHash}
  else
    (Traversal.breadthFirst dag.storage.getChildren dag.traversalFuel [newHash] [newHash]).toFinset

/-- How many parents of each affected block are affected themselves. -/
def inDegrees (dag : GhostDag) (affected : List Hash) : Table Hash Nat :=
  affected.foldl (fun degrees hash =>
    match dag.storage.getBlock hash with
    | none => degrees
    | some block => degrees.insert hash (block.header.parentHashes.countP (· ∈ affected))) ∅

/-- One edge of the topological sort: the child waits for one parent less, and is queued when it
waits for none. -/
def releaseChild (affected : List Hash) (state : Table Hash Nat × List Hash) (child : Hash) :
    Table Hash Nat × List Hash :=
  if child ∈ affected then
    match state.1.lookup child with
    | none => state
    | some degree =>
      (state.1.insert child (degree - 1),
        if degree - 1 = 0 then state.2 ++ [child] else state.2)
  else
    state

def topologicalLoop (dag : GhostDag) (affected : List Hash) :
    Nat → Table Hash Nat × List Hash → List Hash
  | 0, _ => []
  | _ + 1, (_, []) => []
  | fuel + 1, (degrees, hash :: queue) =>
    hash :: topologicalLoop dag affected fuel
      ((dag.storage.getChildren hash).foldl (releaseChild affected) (degrees, queue))

/-- Affected blocks with their affected parents first. -/
def topologicalOrder (dag : GhostDag) (affected : List Hash) : List Hash :=
  let degrees := dag.inDegrees affected
  let roots := affected.filter fun hash => (degrees.lookup hash).getD 1 = 0
  topologicalLoop dag affected (affected.length + dag.traversalFuel) (degrees, roots)

/-- A DAG under recomputation, with the changes that the ordering still has to follow. -/
structure Recoloring where
  dag : GhostDag
  added : Finset Hash
  removed : Finset Hash

/-- Colours one affected block from its parents. A parentless block becomes blue without being
recorded as added. -/
def classify (state : Recoloring) (hash : Hash) : Recoloring :=
  match state.dag.storage.getBlock hash with
  | none => state
  | some block =>
    match maxScore (state.dag.parentScores block.header.parentHashes) with
    | none =>
      if block.header.parentHashes = [] then
        { state with dag := state.dag.markBlue hash 1 }
      else
        { state with dag := state.dag.markRed hash }
    | some best =>
      let dag := state.dag.markBlue hash (best + 1)
      if hash ∈ state.removed then
        { state with dag, removed := state.removed.erase hash }
      else
        { state with dag, added := insert hash state.added }

/-- The parents of a block all of whose parents are blue. -/
def blueParents (dag : GhostDag) (hash : Hash) : Option (List Hash) :=
  (dag.storage.getBlock hash).bind fun block =>
    if block.header.parentHashes.all (· ∈ dag.blueSet) then some block.header.parentHashes else none

/-- The fallback: a block whose parents are all blue is made blue. -/
def reclassify (state : Recoloring) (entry : Hash × List Hash) : Recoloring :=
  let score := match maxScore (entry.2.filterMap state.dag.blueScore.lookup) with
    | some best => best + 1
    | none => 1
  let dag := state.dag.markBlue entry.1 score
  { state with
    dag := { dag with redSet := dag.redSet.erase entry.1 }
    added := insert entry.1 state.added }

def applyFallback (iteration : SetIteration Hash) (affected : Finset Hash) (newHash : Hash)
    (state : Recoloring) : Recoloring :=
  let newBlock := if newHash ∈ state.dag.blueSet then none else
    (state.dag.blueParents newHash).map fun parents => (newHash, parents)
  let redBlocks := (iteration.toList affected).filterMap fun hash =>
    if hash ∈ state.dag.redSet ∧ hash ∉ state.dag.blueSet then
      (state.dag.blueParents hash).map fun parents => (hash, parents)
    else
      none
  let state := newBlock.elim state (reclassify state)
  redBlocks.foldl (fun state entry =>
    let state := reclassify state entry
    { state with removed := state.removed.erase entry.1 }) state

/-- What the insertion comparator answers at `probe`. -/
def compareInsertion (dag : GhostDag) (score timestamp : U64) (probe : Hash) : Ordering :=
  (compare score.toNat (dag.scoreOf probe).toNat).then
    (compare timestamp.toNat (dag.timestampOf probe).toNat)

/-- Inserts a newly blue block into the ordering, whether or not the search found an equal one. -/
def insertOrdered (search : BinarySearch) (dag : GhostDag) (hash : Hash) : GhostDag :=
  let answers := dag.ordering.map (dag.compareInsertion (dag.scoreOf hash) (dag.timestampOf hash))
  { dag with ordering := dag.ordering.insertIdx (search.position answers) hash }

def updateOrdering (search : BinarySearch) (iteration : SetIteration Hash) (state : Recoloring) :
    GhostDag :=
  let kept := (iteration.toList state.removed).foldl List.erase state.dag.ordering
  (iteration.toList state.added).foldl (insertOrdered search) { state.dag with ordering := kept }

def clearAffected (dag : GhostDag) (affected : Finset Hash) : Recoloring where
  dag := { dag with
    blueSet := dag.blueSet \ affected
    blueScore := Table.retain (fun hash _ => decide (hash ∉ affected)) dag.blueScore
    redSet := dag.redSet \ affected }
  added := ∅
  removed := dag.blueSet ∩ affected

def recompute (search : BinarySearch) (iteration : SetIteration Hash) (dag : GhostDag)
    (newHash : Hash) : GhostDag :=
  let affected := dag.affectedBy newHash
  let cleared := dag.clearAffected affected
  let order := cleared.dag.topologicalOrder (iteration.toList affected)
  updateOrdering search iteration
    (applyFallback iteration affected newHash (order.foldl classify cleared))

def updateBlueSetIncremental (search : BinarySearch) (iteration : SetIteration Hash)
    (dag : GhostDag) (newHash : Hash) : GhostDag :=
  match dag.genesisHash.bind dag.storage.getBlock with
  | none => dag
  | some _ =>
    if dag.staleCheckpoint newHash then
      if dag.checkpointStaleRebuilt then
        (dag.adoptHotParents newHash).recompute search iteration newHash
      else
        { dag with
          blueSet := ∅
          redSet := ∅
          blueScore := ∅
          ordering := []
          checkpointStaleRebuilt := true }.updateBlueSet iteration
    else
      dag.recompute search iteration newHash

/-- Keeps twice the confirmations in the ordering and forgets what is deeper. -/
def pruneBelowCheckpoint (dag : GhostDag) (confirmations : Nat) : GhostDag :=
  let highWaterMark := confirmations + confirmations
  if dag.ordering.length ≤ highWaterMark then
    dag
  else
    let pruned := dag.ordering.drop highWaterMark
    { dag with
      blueSet := dag.blueSet.filter (· ∉ pruned)
      blueScore := Table.retain (fun hash _ => decide (hash ∉ pruned)) dag.blueScore
      redSet := dag.redSet.filter (· ∉ pruned)
      blockTimestamps := Table.retain (fun hash _ => decide (hash ∉ pruned)) dag.blockTimestamps
      ordering := dag.ordering.take highWaterMark
      storage := dag.storage.pruneBlocksByHash pruned }

/-- Lists a new block among the children of one of its parents. -/
def linkChild (child : Hash) (storage : DagStorage) (parent : Hash) : DagStorage :=
  if child ∈ storage.getChildren parent then
    storage
  else
    storage.setChildren parent (storage.getChildren parent ++ [child])

/-- Stores a block and its place in the DAG, before any colouring. -/
def insertBlock (dag : GhostDag) (block : Block) : GhostDag :=
  { dag with
    genesisHash :=
      if dag.genesisHash = none ∧ block.header.parentHashes = [] then some block.hash else
        dag.genesisHash
    storage := (block.header.parentHashes.foldl (linkChild block.hash)
      (dag.storage.addBlock block)).setChildren block.hash []
    blockTimestamps := dag.blockTimestamps.insert block.hash block.header.timestamp }

/-- Counts the block and saves a checkpoint at every interval. -/
def countCheckpoint (dag : GhostDag) : GhostDag :=
  let count := dag.storage.blocksSinceCheckpoint + 1
  let storage := { dag.storage with blocksSinceCheckpoint := count }
  if dag.storage.confirmationsForCheckpoint = 0 then
    dag
  else if dag.storage.confirmationsForCheckpoint ≤ count then
    { dag with storage :=
      { storage.saveCheckpoint dag.genesisHash dag.blueSet dag.blueScore dag.ordering with
        blocksSinceCheckpoint := 0 } }
  else
    { dag with storage }

def addBlock (search : BinarySearch) (iteration : SetIteration Hash) (dag : GhostDag)
    (block : Block) : GhostDag :=
  let inserted := dag.insertBlock block
  let colored :=
    if inserted.blueSet = ∅ then inserted.updateBlueSet iteration
    else inserted.updateBlueSetIncremental search iteration block.hash
  let confirmations := colored.storage.confirmationsForCheckpoint
  (if 0 < confirmations then colored.pruneBelowCheckpoint confirmations
    else colored).countCheckpoint

/-- Takes one stored block into the consensus state, with its position as its score. -/
def restoreBlock (dag : GhostDag) (entry : Block × Nat) : GhostDag :=
  let (block, position) := entry
  { dag with
    blueSet := insert block.hash dag.blueSet
    blueScore := dag.blueScore.insert block.hash (BitVec.ofNat 64 (position + 1))
    blockTimestamps := dag.blockTimestamps.insert block.hash block.header.timestamp
    ordering := dag.ordering ++ [block.hash]
    genesisHash :=
      if block.header.parentHashes = [] ∧ dag.genesisHash = none then some block.hash else
        dag.genesisHash }

/-- Makes every stored block blue, in the order of block numbers. Only a DAG over a database gets
here. -/
def rebuildOrderingFromStorage (dag : GhostDag) : GhostDag :=
  let blocks := dag.storage.database.elim [] DagDatabase.getAllBlocks
  if blocks = [] then
    dag
  else
    let sortedBlocks :=
      blocks.insertionSort (SetIteration.KeyLE fun block : Block => block.header.blockNumber.toNat)
    let cleared :=
      { dag with blueSet := ∅, redSet := ∅, blueScore := ∅, blockTimestamps := ∅, ordering := [] }
    let rebuilt := sortedBlocks.zipIdx.foldl restoreBlock cleared
    { rebuilt with ordering := rebuilt.ordering.reverse }

/-- Opens a DAG over a database: from its checkpoint, or from its blocks if the checkpoint is too
short for finality. -/
def withDatabase (database : DagDatabase) : GhostDag :=
  let storage := DagStorage.new (some database)
  let finalityDepth := storage.confirmationsForCheckpoint
  let loaded := (storage.loadCheckpoint).getD (none, ∅, ∅, [])
  let dag : GhostDag :=
    { storage
      genesisHash := loaded.1
      blueSet := loaded.2.1
      redSet := ∅
      blueScore := loaded.2.2.1
      blockTimestamps := ∅
      ordering := loaded.2.2.2
      checkpointStaleRebuilt := false }
  if dag.ordering.length ≤ finalityDepth then dag.rebuildOrderingFromStorage else dag

theorem storage_foldl_restoreBlock (entries : List (Block × Nat)) (dag : GhostDag) :
    (entries.foldl restoreBlock dag).storage = dag.storage := by
  induction entries generalizing dag with
  | nil => rfl
  | cons entry rest ih => exact ih _

theorem storage_withDatabase {database : DagDatabase} :
    (withDatabase database).storage = DagStorage.new (some database) := by
  unfold withDatabase
  dsimp only
  split
  · unfold rebuildOrderingFromStorage
    dsimp only
    split
    · rfl
    · exact storage_foldl_restoreBlock _ _
  · rfl

def finalityDepth (dag : GhostDag) : Nat :=
  if 0 < dag.storage.confirmationsForCheckpoint then dag.storage.confirmationsForCheckpoint else 1

def getFinalizedBlockHash (dag : GhostDag) : Option Hash :=
  dag.ordering[dag.finalityDepth]?

def pruneOldBlocks (dag : GhostDag) (currentHeight : U64) : GhostDag :=
  { dag with storage := dag.storage.pruneRedBlocks currentHeight 100 }

end GhostDag

end IronDag
