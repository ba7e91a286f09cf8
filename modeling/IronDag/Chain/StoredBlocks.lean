import IronDag.Chain.Acceptance
import IronDag.Chain.Resync

namespace IronDag

open Fallible

variable {hash : Hash}

theorem StateDatabase.getBlock_putBlock {database : StateDatabase} {block : Block} :
    (database.putBlock block).getBlock hash =
      if hash = block.hash then some block else database.getBlock hash := by
  unfold getBlock putBlock
  rw [Table.lookup_write]
  split <;> rfl

theorem Ledger.Frame.getBlock (frame : Ledger.Frame before after) (hash : Hash) :
    (after.database.bind fun database => database.getBlock hash) =
      before.database.bind fun database => database.getBlock hash := by
  obtain ⟨write, blind, written⟩ := frame.database
  rw [written, Option.bind_map]
  exact congrArg before.database.bind (funext fun database => blind.blocks database hash)

namespace Blockchain

variable {host : Host} {conditions : Conditions} {block : Block} {chain after : Blockchain}

/-- Every entry of the index is a position in the list of blocks. -/
def InBounds (chain : Blockchain) : Prop :=
  ∀ hash position, chain.blocks.blockByHash.lookup hash = some position →
    position < chain.blocks.blocks.length

/-- The node finds a block under the hash. -/
def Stored (chain : Blockchain) (hash : Hash) : Prop :=
  ∃ block, chain.getBlockByHash hash = .ok (some block)

instance (hash : Hash) : Decidable (chain.Stored hash) :=
  match found : chain.getBlockByHash hash with
  | .ok (some block) => isTrue ⟨block, found⟩
  | .ok none => isFalse (by rintro ⟨_, other⟩; rw [found] at other; cases other)
  | .error fault => isFalse (by rintro ⟨_, other⟩; rw [found] at other; cases other)

/-- What the node answers about blocks has not changed. -/
structure SameBlocks (before after : Blockchain) : Prop where
  blocks : after.blocks = before.blocks
  getBlock : ∀ hash, (after.database.bind fun database => database.getBlock hash) =
    before.database.bind fun database => database.getBlock hash
  latest : after.latestBlockNumber = before.latestBlockNumber

theorem SameBlocks.of_frame (frame : Ledger.Frame chain.toLedger after.toLedger) :
    SameBlocks chain after :=
  ⟨frame.blocks, frame.getBlock, frame.cachedLatestBlockNumber⟩

theorem SameBlocks.getBlockByHash (same : SameBlocks chain after) :
    after.getBlockByHash hash = chain.getBlockByHash hash := by
  unfold Blockchain.getBlockByHash blockAt
  rw [same.blocks, same.getBlock]

theorem SameBlocks.inBounds (same : SameBlocks chain after) (bounded : chain.InBounds) :
    after.InBounds := by
  unfold InBounds
  rw [same.blocks]
  exact bounded

/-- The block has been appended to the list and to the indexes. -/
structure Appended (before : Blockchain) (block : Block) (after : Blockchain) : Prop where
  blocks : after.blocks.blocks = before.blocks.blocks ++ [block]
  blockByHash : after.blocks.blockByHash =
    before.blocks.blockByHash.insert block.hash before.blocks.blocks.length
  latest : after.latestBlockNumber =
    if before.latestBlockNumber < block.header.blockNumber then block.header.blockNumber else
      before.latestBlockNumber
  getBlock : ∀ hash, hash ≠ block.hash →
    (after.database.bind fun database => database.getBlock hash) =
    before.database.bind fun database => database.getBlock hash

section

variable (appended : Appended chain block after) (bounded : chain.InBounds)

include appended bounded

theorem Appended.inBounds : after.InBounds := by
  intro hash position entry
  rw [appended.blockByHash, Table.lookup_write] at entry
  rw [appended.blocks, List.length_append]
  split at entry
  · cases entry
    exact Nat.lt_succ_self _
  · exact Nat.lt_succ_of_lt (bounded hash position entry)

theorem Appended.getBlockByHash :
    after.getBlockByHash hash =
      if hash = block.hash then .ok (some block) else chain.getBlockByHash hash := by
  unfold Blockchain.getBlockByHash blockAt
  rw [appended.blocks, appended.blockByHash, Table.lookup_write]
  by_cases same : hash = block.hash
  · simp [same, Except.map]
  · simp only [if_neg same]
    rw [appended.getBlock hash same]
    cases entry : chain.blocks.blockByHash.lookup hash with
    | none => rfl
    | some position =>
      dsimp only
      rw [List.getElem?_append_left (bounded hash position entry)]

theorem Appended.stored_iff (hash : Hash) : after.Stored hash ↔
    hash = block.hash ∨ chain.Stored hash := by
  unfold Stored
  rw [appended.getBlockByHash bounded]
  split
  · next same => simp [same]
  · next other => simp [other]

end

theorem getBlockByHash_of_inBounds (bounded : chain.InBounds) :
    ∃ found, chain.getBlockByHash hash = .ok found := by
  unfold getBlockByHash
  cases entry : chain.blocks.blockByHash.lookup hash with
  | none => exact ⟨_, rfl⟩
  | some position =>
    have within := bounded hash position entry
    exact ⟨some chain.blocks.blocks[position], by simp [blockAt, Except.map, within]⟩

theorem appended_addBlockForSync
    (added : addBlockForSync host conditions block chain = .ok true after) :
    Appended chain block after := by
  obtain ⟨-, ⟨-, no, -⟩ | ⟨-, -, -, ledger, processed, rfl⟩⟩ := addBlockForSync_eq_ok.mp added
  · cases no
  · have frame :=
      Ledger.keeps_validateAndProcessTransactions host conditions.encounters block chain.toLedger
    rw [processed] at frame
    have same : SameBlocks chain { chain with toLedger := ledger } := .of_frame frame
    refine ⟨?_, ?_, ?_, fun hash other => ?_⟩
    · show ledger.blocks.blocks ++ [block] = _
      rw [same.blocks]
    · show ledger.blocks.blockByHash.insert block.hash ledger.blocks.blocks.length = _
      rw [same.blocks]
    · rw [← same.latest]
      rfl
    · rw [← same.getBlock]
      show ((ledger.database.map fun database => database.putBlock block).bind fun database =>
        database.getBlock hash) = _
      cases ledger.database with
      | none => rfl
      | some database => simp [StateDatabase.getBlock_putBlock, other]

theorem sameBlocks_addBlockForSync
    (rejected : ∀ after, addBlockForSync host conditions block chain ≠ .ok true after) :
    SameBlocks chain (Fallible.finalState (addBlockForSync host conditions block chain)) := by
  have frame :=
    Ledger.keeps_validateAndProcessTransactions host conditions.encounters block chain.toLedger
  cases done : addBlockForSync host conditions block chain with
  | ok added after =>
    cases added with
    | true => exact absurd done (rejected after)
    | false =>
      obtain ⟨-, ⟨-, -, rfl⟩ | ⟨-, no, -⟩⟩ := addBlockForSync_eq_ok.mp done
      · exact .of_frame (.refl _)
      · cases no
  | error fault after =>
    obtain ⟨-, rfl⟩ | ⟨-, -, stopped⟩ := addBlockForSync_eq_error.mp done
    · exact .of_frame (.refl _)
    · exact .of_frame (stopped.toLedger ▸ frame)

end Blockchain

end IronDag
