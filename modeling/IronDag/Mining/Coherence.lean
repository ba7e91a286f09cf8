import IronDag.Chain.Resync
import IronDag.Lib.Positions
import IronDag.Mining.Node

namespace IronDag

open Blockchain Positions ChainIndex List

namespace Blockchain

/-- The indexes and counters agree with the list of blocks, and no lookup panics. -/
structure Coherent (chain : Blockchain) : Prop where
  blockByHash : ∀ hash position, chain.blocks.blockByHash.lookup hash = some position ↔
    ∃ block, chain.blocks.blocks[position]? = some block ∧ block.hash = hash
  blockHashes : ∀ hash, hash ∈ chain.blocks.blockHashes ↔ hash ∈ chain.blocks.blocks.map Block.hash
  transactions : ∀ block ∈ chain.blocks.blocks, ∀ tx ∈ block.transactions, ∃ holder found position,
    chain.getTransactionByHash tx.hash = .ok (some (holder, found, position)) ∧
      holder ∈ chain.blocks.blocks ∧
      holder.transactions[position]? = some found ∧ found.hash = tx.hash
  blockByNumber : ∀ number position, chain.blocks.blockByNumber.lookup number = some position →
    ∃ block, chain.blocks.blocks[position]? = some block ∧ block.header.blockNumber = number
  atMostLatest : ∀ block ∈ chain.blocks.blocks,
    block.header.blockNumber ≤ chain.cachedLatestBlockNumber
  latestStored : chain.blocks.blocks = [] ∧ chain.cachedLatestBlockNumber = 0 ∨
    ∃ block ∈ chain.blocks.blocks, block.header.blockNumber = chain.cachedLatestBlockNumber
  total : chain.cachedTotalTxCount = BitVec.ofNat 64 chain.transactionCount
  hashInBounds : ∀ hash, chain.getBlockByHash hash ≠ .error .panic
  numberInBounds : ∀ number, chain.getBlockByNumber number ≠ .error .panic
  transactionInBounds : ∀ hash, chain.getTransactionByHash hash ≠ .error .panic

end Blockchain

/-- The transaction at a position in the block at a position. -/
def BlocksData.transactionAt (data : BlocksData) (position : Nat × Nat) : Option Transaction :=
  data.blocks[position.1]?.bind fun block => block.transactions[position.2]?

namespace ChainIndex

def empty : ChainIndex where
  data := BlocksData.empty
  latestBlockNumber := 0
  totalTxCount := 0

structure Coherent (index : ChainIndex) : Prop where
  distinct : (index.data.blocks.map Block.hash).Nodup
  hashes : ∀ hash, hash ∈ index.data.blockHashes ↔ hash ∈ index.data.blocks.map Block.hash
  byHash : Points (index.data.blocks[·]?) Block.hash index.data.blockByHash
  everyHash : Covers (index.data.blocks[·]?) Block.hash index.data.blockByHash
  byNumber : Points (index.data.blocks[·]?) (fun block => block.header.blockNumber)
    index.data.blockByNumber
  byTransaction : Points index.data.transactionAt Transaction.hash index.data.txByHash
  everyTransaction : Covers index.data.transactionAt Transaction.hash index.data.txByHash
  atMostLatest : ∀ block ∈ index.data.blocks, block.header.blockNumber ≤ index.latestBlockNumber
  latestStored : index.data.blocks = [] ∧ index.latestBlockNumber = 0 ∨
    ∃ block ∈ index.data.blocks, block.header.blockNumber = index.latestBlockNumber
  total : index.totalTxCount =
    BitVec.ofNat 64 (index.data.blocks.map fun block => block.transactions.length).sum

theorem coherent_empty : empty.Coherent where
  distinct := nodup_nil
  hashes := fun hash => by simp [empty, BlocksData.empty]
  byHash := Points.empty
  everyHash := fun _ _ placed => by cases placed
  byNumber := Points.empty
  byTransaction := Points.empty
  everyTransaction := fun _ _ placed => by cases placed
  atMostLatest := fun _ stored => by cases stored
  latestStored := .inl ⟨rfl, rfl⟩
  total := rfl

/-- One more block, of which some transactions are entered. -/
def pushWith (index : ChainIndex) (block : Block) (entries : List (Transaction × (Nat × Nat))) :
    ChainIndex :=
  { index.push block with
    data := { (index.push block).data with
      txByHash := enter Transaction.hash index.data.txByHash entries } }

/-- The transactions of a block with their positions. -/
def entriesOf (index : ChainIndex) (block : Block) : List (Transaction × (Nat × Nat)) :=
  block.transactions.zipIdx.map fun entry => (entry.1, (index.data.blocks.length, entry.2))

theorem push_eq_pushWith {index : ChainIndex} {block : Block} :
    index.push block = index.pushWith block (index.entriesOf block) := by
  simp [pushWith, push, Blockchain.pushBlock, entriesOf, enter, foldl_map]

theorem getElem?_push {α : Type} {items : List α} {last item : α} :
    (items ++ [last])[position]? = some item ↔
      items[position]? = some item ∨ position = items.length ∧ last = item := by
  rcases Nat.lt_trichotomy position items.length with before | rfl | beyond
  · rw [getElem?_append_left before]
    simp [Nat.ne_of_lt before]
  · simp
  · have past : items.length + 1 ≤ position := beyond
    rw [getElem?_eq_none (by simpa using past), getElem?_eq_none (Nat.le_of_lt beyond)]
    simp [Nat.ne_of_gt beyond]

section Push

variable {index : ChainIndex}

theorem transactionAt_pushWith : (index.pushWith block entries).data.transactionAt position =
      some tx ↔ index.data.transactionAt position = some tx ∨
        position.1 = index.data.blocks.length ∧ block.transactions[position.2]? = some tx := by
  have shape : (index.pushWith block entries).data.blocks = index.data.blocks ++ [block] := rfl
  simp only [BlocksData.transactionAt, shape, Option.bind_eq_some_iff, getElem?_push]
  constructor
  · rintro ⟨holder, before | ⟨last, rfl⟩, placed⟩
    · exact .inl ⟨holder, before, placed⟩
    · exact .inr ⟨last, placed⟩
  · rintro (⟨holder, before, placed⟩ | ⟨last, placed⟩)
    · exact ⟨holder, .inl before, placed⟩
    · exact ⟨block, .inr ⟨last, rfl⟩, placed⟩

/-- A new block keeps the index coherent if its transactions are entered, or known by their
hashes. -/
theorem Coherent.pushWith (coherent : index.Coherent) (fresh : block.hash ∉ index.data.blockHashes)
    (placed : ∀ entry ∈ entries, entry.2.1 = index.data.blocks.length ∧
      block.transactions[entry.2.2]? = some entry.1)
    (known : ∀ position tx, block.transactions[position]? = some tx →
      tx.hash ∈ index.data.txByHash ∨ (tx, (index.data.blocks.length, position)) ∈ entries) :
    (index.pushWith block entries).Coherent := by
  have blocks : (index.pushWith block entries).data.blocks = index.data.blocks ++ [block] := rfl
  have kept : ∀ (position : Nat) (item : Block), index.data.blocks[position]? = some item →
      (index.pushWith block entries).data.blocks[position]? = some item := by
    intro position item before
    exact getElem?_push.mpr (.inl before)
  have last : ∀ entry ∈ [(block, index.data.blocks.length)],
      (index.pushWith block entries).data.blocks[entry.2]? = some entry.1 := by
    intro entry member
    rw [mem_singleton.mp member]
    exact getElem?_push.mpr (.inr ⟨rfl, rfl⟩)
  constructor
  case distinct =>
    rw [blocks, map_append, map_singleton, nodup_append_comm, singleton_append, nodup_cons]
    exact ⟨fun stored => fresh ((coherent.hashes _).mpr stored), coherent.distinct⟩
  case hashes =>
    intro hash
    have inserted : hash ∈ (index.pushWith block entries).data.blockHashes ↔
        hash = block.hash ∨ hash ∈ index.data.blockHashes := Finset.mem_insert
    rw [inserted, coherent.hashes, blocks, map_append, mem_append, map_singleton,
      mem_singleton, or_comm]
  case byHash => exact (coherent.byHash.mono kept).enter last
  case everyHash =>
    have entered : Covers ((index.pushWith block entries).data.blocks[·]?) Block.hash
        (enter Block.hash index.data.blockByHash [(block, index.data.blocks.length)]) := by
      apply Covers.enter
      intro position item placed
      rcases getElem?_push.mp placed with before | ⟨rfl, rfl⟩
      · exact .inl (coherent.everyHash position item before)
      · exact .inr mem_cons_self
    exact entered
  case byNumber => exact (coherent.byNumber.mono kept).enter last
  case byTransaction =>
    refine (coherent.byTransaction.mono fun position tx before => ?_).enter fun entry member => ?_
    · exact transactionAt_pushWith.mpr (.inl before)
    · exact transactionAt_pushWith.mpr (.inr (placed entry member))
  case everyTransaction =>
    apply Covers.enter
    intro position tx there
    rcases transactionAt_pushWith.mp there with before | ⟨newest, inBlock⟩
    · exact .inl (coherent.everyTransaction position tx before)
    · have shape : position = (index.data.blocks.length, position.2) := Prod.ext newest rfl
      rw [shape]
      exact known position.2 tx inBlock
  case atMostLatest =>
    intro stored member
    have latest : (index.pushWith block entries).latestBlockNumber =
        if index.latestBlockNumber < block.header.blockNumber then block.header.blockNumber
        else index.latestBlockNumber := rfl
    rw [latest]
    rcases mem_append.mp member with old | new
    · have bounded := coherent.atMostLatest stored old
      split
      · next above => exact BitVec.le_trans bounded (BitVec.le_of_lt above)
      · exact bounded
    · rw [mem_singleton.mp new]
      split
      · exact BitVec.le_refl _
      · next notAbove => exact BitVec.not_lt.mp notAbove
  case latestStored =>
    right
    have latest : (index.pushWith block entries).latestBlockNumber =
        if index.latestBlockNumber < block.header.blockNumber then block.header.blockNumber
        else index.latestBlockNumber := rfl
    rw [latest, blocks]
    split
    · exact ⟨block, by simp, rfl⟩
    · next notAbove =>
      rcases coherent.latestStored with ⟨none, zero⟩ | ⟨highest, stored, number⟩
      · refine ⟨block, by simp, ?_⟩
        rw [zero] at notAbove ⊢
        exact BitVec.le_zero_iff.mp (BitVec.not_lt.mp notAbove)
      · exact ⟨highest, mem_append_left _ stored, number⟩
  case total =>
    have count : (index.pushWith block entries).totalTxCount =
        index.totalTxCount + BitVec.ofNat 64 block.transactions.length := rfl
    rw [count, coherent.total, blocks, map_append, sum_append, map_singleton,
      sum_singleton, BitVec.ofNat_add]

theorem Coherent.push (coherent : index.Coherent) (fresh : block.hash ∉ index.data.blockHashes) :
    (index.push block).Coherent := by
  rw [push_eq_pushWith]
  apply coherent.pushWith fresh
  · intro entry member
    obtain ⟨indexed, listed, rfl⟩ := mem_map.mp member
    exact ⟨rfl, mem_zipIdx_iff_getElem?.mp listed⟩
  · intro position tx inBlock
    exact .inr (mem_map.mpr ⟨(tx, position), mem_zipIdx_iff_getElem?.mpr inBlock, rfl⟩)

theorem Coherent.foldl_push {blocks : List Block} (coherent : index.Coherent)
    (distinct : (blocks.map Block.hash).Nodup)
    (fresh : ∀ block ∈ blocks, block.hash ∉ index.data.blockHashes) :
    (blocks.foldl ChainIndex.push index).Coherent := by
  induction blocks generalizing index with
  | nil => exact coherent
  | cons block rest ih =>
    rw [map_cons, nodup_cons] at distinct
    refine ih (coherent.push (fresh block mem_cons_self)) distinct.2 ?_
    intro later member
    have inserted : later.hash ∈ (index.push block).data.blockHashes ↔
        later.hash = block.hash ∨ later.hash ∈ index.data.blockHashes := Finset.mem_insert
    rw [inserted]
    rintro (same | known)
    · exact distinct.1 (same ▸ mem_map_of_mem member)
    · exact fresh later (mem_cons_of_mem block member) known

end Push

theorem foldl_push_eq (index : ChainIndex) (blocks : List Block) : blocks.foldl push index =
      { data := blocks.foldl Blockchain.pushBlock index.data
        latestBlockNumber := blocks.foldl (fun best (block : Block) =>
          if best < block.header.blockNumber then block.header.blockNumber else best)
            index.latestBlockNumber
        totalTxCount := blocks.foldl (fun total (block : Block) =>
          total + BitVec.ofNat 64 block.transactions.length) index.totalTxCount } := by
  induction blocks generalizing index with
  | nil => rfl
  | cons block rest ih => exact ih (index.push block)

end ChainIndex

namespace Blockchain

variable {chain : Blockchain}

/-- Where the index is coherent the lookups find everything, and nothing past the end. -/
theorem coherent_of_index (coherent : chain.index.Coherent) : chain.Coherent := by
  have exact := lookup_eq_some_iff coherent.byHash coherent.everyHash (by
    intro left right item other atLeft atRight same
    have keyLeft : (chain.blocks.blocks.map Block.hash)[left]? = some item.hash := by
      rw [getElem?_map]
      exact congrArg _ atLeft
    have keyRight : (chain.blocks.blocks.map Block.hash)[right]? = some item.hash := by
      rw [getElem?_map, same]
      exact congrArg _ atRight
    have inside : left < (chain.blocks.blocks.map Block.hash).length :=
      (List.getElem?_eq_some_iff.mp keyLeft).1
    exact (List.getElem?_inj inside coherent.distinct).mp (keyLeft.trans keyRight.symm))
  have transaction : ∀ hash position, chain.blocks.txByHash.lookup hash = some position →
      ∃ holder found,
      chain.getTransactionByHash hash = .ok (some (holder, found, position.2)) ∧
        holder ∈ chain.blocks.blocks ∧
        holder.transactions[position.2]? = some found ∧ found.hash = hash := by
    intro hash position entry
    obtain ⟨found, there, same⟩ := coherent.byTransaction hash position entry
    obtain ⟨holder, stored, placed⟩ := Option.bind_eq_some_iff.mp there
    have stored : chain.blocks.blocks[position.1]? = some holder := stored
    refine ⟨holder, found, ?_, mem_of_getElem? stored, placed, same⟩
    simp [getTransactionByHash, blockAt, entry, stored, placed, Except.bind]
  constructor
  case blockByHash => exact exact
  case blockHashes => exact coherent.hashes
  case transactions =>
    intro block stored tx member
    obtain ⟨position, atPosition⟩ := getElem?_of_mem stored
    obtain ⟨place, atPlace⟩ := getElem?_of_mem member
    have there : chain.index.data.transactionAt (position, place) = some tx :=
      Option.bind_eq_some_iff.mpr ⟨block, atPosition, atPlace⟩
    obtain ⟨entry, looked⟩ := Finmap.mem_iff.mp (coherent.everyTransaction _ tx there)
    obtain ⟨holder, found, result⟩ := transaction tx.hash entry looked
    exact ⟨holder, found, entry.2, result⟩
  case blockByNumber => exact coherent.byNumber
  case atMostLatest => exact coherent.atMostLatest
  case latestStored => exact coherent.latestStored
  case total => exact coherent.total
  case hashInBounds =>
    intro hash
    unfold getBlockByHash
    split
    · next position entry =>
      obtain ⟨block, stored, -⟩ := (exact hash position).mp entry
      have stored : chain.blocks.blocks[position]? = some block := stored
      simp [blockAt, stored, Except.map]
    · simp
  case numberInBounds =>
    intro number
    unfold getBlockByNumber
    split
    · next position entry =>
      obtain ⟨block, stored, -⟩ := coherent.byNumber number position entry
      have stored : chain.blocks.blocks[position]? = some block := stored
      simp [blockAt, stored, Except.map]
    · simp
  case transactionInBounds =>
    intro hash
    cases entry : chain.blocks.txByHash.lookup hash with
    | none => simp [getTransactionByHash, entry]
    | some position =>
      obtain ⟨holder, found, result, -⟩ := transaction hash position entry
      simp [result]

theorem index_storeBlock (chain : Blockchain) (block : Block) :
    (chain.storeBlock block).index = chain.index := by
  unfold storeBlock
  split <;> rfl

theorem index_foldl_storeBlock {chain : Blockchain} {blocks : List Block} :
    (blocks.foldl storeBlock chain).index = chain.index := by
  induction blocks generalizing chain with
  | nil => rfl
  | cons block rest ih => rw [foldl_cons, ih, index_storeBlock]

theorem index_installSyncCheckpoint (fresh : block.hash ∉ chain.blocks.blockHashes) :
    (chain.installSyncCheckpoint block).2.index = chain.index.pushWith block [] := by
  have same := index_storeBlock chain block
  rw [installSyncCheckpoint, if_neg fresh, ← same]
  have position : chain.blocks.blocks.length = (chain.storeBlock block).blocks.blocks.length :=
    congrArg (fun index => index.data.blocks.length) same.symm
  rw [position]
  rfl

theorem installSyncCheckpoint_of_known (known : block.hash ∈ chain.blocks.blockHashes) :
    (chain.installSyncCheckpoint block).2 = chain := by
  rw [installSyncCheckpoint, if_pos known]

/-- Clearing a chain without blocks clears nothing of a coherent index. -/
theorem index_clearForResync (coherent : chain.index.Coherent) (none : chain.blocks.blocks = []) :
    chain.clearForResync.index = chain.index := by
  have hashes : chain.blocks.blockHashes = ∅ := by
    apply Finset.eq_empty_of_forall_notMem
    intro hash known
    have stored := (coherent.hashes hash).mp known
    rw [index, none] at stored
    cases stored
  have latest : chain.cachedLatestBlockNumber = 0 := by
    rcases coherent.latestStored with ⟨-, zero⟩ | ⟨block, stored, -⟩
    · exact zero
    · rw [index, none] at stored
      cases stored
  have total : chain.cachedTotalTxCount = 0 := by
    have counted : chain.cachedTotalTxCount =
        BitVec.ofNat 64 (chain.blocks.blocks.map fun block => block.transactions.length).sum :=
          coherent.total
    rw [none] at counted
    exact counted
  simp only [index, clearForResync, ← none, ← hashes]
  rw [latest, total]

theorem coherent_loadFromStorage (blank : chain.index = empty) :
    chain.loadFromStorage.index.Coherent := by
  unfold loadFromStorage
  split
  · rw [blank]
    exact coherent_empty
  · next database opened =>
    dsimp only
    split
    · rw [blank]
      exact coherent_empty
    · rw [index_foldl_storeBlock]
      have data : chain.blocks = empty.data := congrArg data blank
      have folded := foldl_push_eq empty (database.getAllBlocks.insertionSort
        (SetIteration.KeyLE fun block : Block => block.header.blockNumber.toNat))
      rw [← data] at folded
      refine (congrArg ChainIndex.Coherent folded).mp ?_
      apply coherent_empty.foldl_push
      · rw [((perm_insertionSort _ _).map Block.hash).nodup_iff]
        exact BlockStore.nodup_hash_getAllBlocks _
      · intro block _
        exact Finset.notMem_empty _

end Blockchain

/-- A chain as a constructor builds it before it loads its blocks: any settings over any
database. -/
structure Setup where
  chain : Blockchain
  blank : chain.index = empty

/-- What changes the stored blocks. Loading belongs to the start of a node. -/
inductive ChainEvent where
  | call (step : Step)
  | installSyncCheckpoint (block : Block)
  | clearForResync
  | loadFromStorage (setup : Setup)

namespace ChainEvent

def apply (host : Host) (event : ChainEvent) (chain : Blockchain) : Blockchain :=
  match event with
  | call step => step.apply host chain
  | installSyncCheckpoint block => (chain.installSyncCheckpoint block).2
  | clearForResync => chain.clearForResync
  | loadFromStorage setup => setup.chain.loadFromStorage

/-- A new checkpoint brings no transaction with a hash that is not stored, and clearing finds no
blocks. -/
def KeepsIndexes (chain : Blockchain) : ChainEvent → Prop
  | call _ => True
  | installSyncCheckpoint block => block.hash ∉ chain.blocks.blockHashes →
      ∀ tx ∈ block.transactions,
      ∃ known ∈ chain.blocks.blocks, ∃ other ∈ known.transactions, other.hash = tx.hash
  | clearForResync => chain.blocks.blocks = []
  | loadFromStorage _ => True

variable {event : ChainEvent}

theorem coherent_apply (coherent : chain.index.Coherent) (keeps : event.KeepsIndexes chain) :
    (event.apply host chain).index.Coherent := by
  cases event with
  | call step =>
    rcases step.index_apply host chain with same | stores
    · exact same ▸ coherent
    · have pushed : (ChainEvent.apply host (.call step) chain).index =
          chain.index.push step.call.block := stores.index
      rw [pushed]
      exact coherent.push stores.fresh
  | installSyncCheckpoint block =>
    by_cases known : block.hash ∈ chain.blocks.blockHashes
    · rw [apply, installSyncCheckpoint_of_known known]
      exact coherent
    · rw [apply, index_installSyncCheckpoint known]
      refine coherent.pushWith known (fun entry none => by cases none)
        fun position tx inBlock => .inl ?_
      obtain ⟨holder, stored, other, member, same⟩ := keeps known tx (mem_of_getElem? inBlock)
      obtain ⟨atHolder, placed⟩ := getElem?_of_mem stored
      obtain ⟨atOther, placedOther⟩ := getElem?_of_mem member
      rw [← same]
      exact coherent.everyTransaction (atHolder, atOther) other
        (Option.bind_eq_some_iff.mpr ⟨holder, placed, placedOther⟩)
  | clearForResync =>
    rw [apply, index_clearForResync coherent keeps]
    exact coherent
  | loadFromStorage setup => exact coherent_loadFromStorage setup.blank

/-- An incoherent state comes from a checkpoint or from clearing. -/
theorem keepsIndexes_of_coherent (coherent : chain.index.Coherent)
    (after : (event.apply host chain).Coherent) : event.KeepsIndexes chain := by
  cases event with
  | call step => trivial
  | installSyncCheckpoint block =>
    intro fresh tx member
    have index := index_installSyncCheckpoint fresh
    have stored : block ∈ (chain.installSyncCheckpoint block).2.blocks.blocks := by
      have blocks : (chain.installSyncCheckpoint block).2.blocks.blocks =
          chain.blocks.blocks ++ [block] :=
        congrArg (fun index => index.data.blocks) index
      rw [blocks]
      exact mem_append_right _ mem_cons_self
    obtain ⟨holder, found, position, looked, -⟩ := after.transactions block stored tx member
    -- the table of transactions is that from before the checkpoint
    have table : (chain.installSyncCheckpoint block).2.blocks.txByHash = chain.blocks.txByHash :=
      congrArg (fun index => index.data.txByHash) index
    cases entry : chain.blocks.txByHash.lookup tx.hash with
    | none =>
      have missing :
          (chain.installSyncCheckpoint block).2.getTransactionByHash tx.hash = .ok none := by
        rw [Blockchain.getTransactionByHash, table, entry]
      rw [apply, missing] at looked
      cases looked
    | some place =>
      obtain ⟨other, there, same⟩ := coherent.byTransaction tx.hash place entry
      obtain ⟨known, placed, inKnown⟩ := Option.bind_eq_some_iff.mp there
      exact ⟨known, mem_of_getElem? placed, other, mem_of_getElem? inKnown, same⟩
  | clearForResync =>
    by_contra stored
    obtain ⟨block, rest, blocks⟩ := exists_cons_of_ne_nil stored
    have first : chain.index.data.blocks[0]? = some block := congrArg (·[0]?) blocks
    obtain ⟨position, entry⟩ := Finmap.mem_iff.mp (coherent.everyHash 0 block first)
    obtain ⟨left, past, -⟩ := (after.blockByHash block.hash position).mp entry
    cases past
  | loadFromStorage setup => trivial

/-- In a run from the start of a node, the indexes are coherent in every state exactly if no event
makes a checkpoint or a clearing leave them behind. -/
theorem coherent_iff_of_run (host : Host) (start : Setup) (events : List ChainEvent) :
    (∀ chain ∈ Run.states (ChainEvent.apply host) start.chain events, chain.Coherent) ↔
      ∀ entry ∈ Run.visited (ChainEvent.apply host) start.chain events,
        entry.2.KeepsIndexes entry.1 := by
  have initial : start.chain.index.Coherent := start.blank ▸ coherent_empty
  exact Run.forall_states_iff (fun _ => coherent_of_index) (fun _ _ => coherent_apply)
    (fun _ _ => keepsIndexes_of_coherent) initial

end ChainEvent

/-- A call leaves the blocks as they are or appends one, and the height does not fall. -/
theorem Step.blocks_prefix_apply (host : Host) (chain : Blockchain) (step : Step) :
    chain.blocks.blocks <+: (step.apply host chain).blocks.blocks ∧
      chain.latestBlockNumber ≤ (step.apply host chain).latestBlockNumber := by
  rcases step.index_apply host chain with same | stores
  · rw [show (step.apply host chain).blocks = chain.blocks from congrArg data same,
      show (step.apply host chain).latestBlockNumber =
        _ from congrArg ChainIndex.latestBlockNumber same]
    exact ⟨prefix_rfl, BitVec.le_refl _⟩
  · rw [show (step.apply host chain).blocks = pushBlock _ _ from congrArg data stores.index,
      show (step.apply host chain).latestBlockNumber =
        _ from congrArg ChainIndex.latestBlockNumber stores.index]
    refine ⟨prefix_append _ _, ?_⟩
    show chain.cachedLatestBlockNumber ≤ if chain.cachedLatestBlockNumber < _ then _ else _
    split
    · next higher => exact BitVec.le_of_lt higher
    · exact BitVec.le_refl _

/-- Through `add_block`, submissions and `add_block_for_sync` no block is lost or moved, and the
height does not fall. Every later state finds a block that was stored once by its hash. -/
theorem Step.storedForGood_of_run (host : Host) (start : Setup) (steps : List Step) :
    (Run.states (Step.apply host) start.chain steps).Pairwise fun earlier later =>
      earlier.blocks.blocks <+: later.blocks.blocks ∧
        earlier.latestBlockNumber ≤ later.latestBlockNumber ∧
        ∀ block ∈ earlier.blocks.blocks, later.getBlockByHash block.hash = .ok (some block) := by
  have kept (chain : Blockchain) (step : Step) (coherent : chain.index.Coherent) (_ : True) :
      (step.apply host chain).index.Coherent :=
    @ChainEvent.coherent_apply (.call step) chain host coherent trivial
  have extended : (Run.states (Step.apply host) start.chain steps).Pairwise fun earlier later =>
      earlier.blocks.blocks <+: later.blocks.blocks ∧
        earlier.latestBlockNumber ≤ later.latestBlockNumber :=
    Run.pairwise_states
      (fun first second => ⟨first.1.trans second.1, BitVec.le_trans first.2 second.2⟩)
      fun entry _ => entry.2.blocks_prefix_apply host entry.1
  refine extended.imp_of_mem fun _ among related => ⟨related.1, related.2, fun block stored => ?_⟩
  obtain ⟨position, placed⟩ := getElem?_of_mem (related.1.subset stored)
  have coherent := coherent_of_index
    (Run.invariant_states kept (start.blank ▸ coherent_empty) (fun _ _ => trivial) _ among)
  rw [getBlockByHash, (coherent.blockByHash _ position).mpr ⟨block, placed, rfl⟩]
  simp [blockAt, placed, Except.map]

namespace Blockchain

def inMemory : Setup where
  chain := Blockchain.new
  blank := rfl

/-- A genesis block is received, and the chain is cleared. -/
def genesisCleared : Blockchain :=
  Run.run (ChainEvent.apply Host.sample) inMemory.chain
    [.call ⟨.sync genesisBlock, Conditions.uncontended 1600000020⟩, .clearForResync]

def checkpointPayment : Transaction :=
  Transaction.new Crypto.sample 1 2 3 4 0

def paidCheckpoint : Block :=
  childBlock 2 [checkpointPayment]

theorem cleared_or_checkpointed_not_coherent :
    genesisCleared.getBlockByHash genesisBlock.hash = .error .panic ∧ ¬genesisCleared.Coherent ∧
      ¬(Run.run (ChainEvent.apply Host.sample) inMemory.chain
        [.installSyncCheckpoint paidCheckpoint]).Coherent := by
  have panics : genesisCleared.getBlockByHash genesisBlock.hash = .error .panic := by
    have entry : genesisCleared.blocks.blockByHash.lookup genesisBlock.hash =
        some 0 := by decide +kernel
    have none : genesisCleared.blocks.blocks = [] := rfl
    simp [getBlockByHash, blockAt, entry, none, Except.map]
  refine ⟨panics, fun coherent => coherent.hashInBounds _ panics, fun coherent => ?_⟩
  obtain ⟨holder, found, position, looked, -⟩ :=
    coherent.transactions paidCheckpoint (by decide +kernel) checkpointPayment (by decide +kernel)
  cases looked

end Blockchain

end IronDag
