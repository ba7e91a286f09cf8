import IronDag.Chain.StoredBlocks
import IronDag.Network.Gossip

namespace IronDag

open Fallible Blockchain

namespace GossipNode

/-- What a block needs. -/
def parentsOf (block : Block) : List Hash :=
  block.header.parentHashes

/-- The parents are all known. -/
def ParentsStored (chain : Blockchain) (block : Block) : Prop :=
  ∀ parent ∈ parentsOf block, chain.Stored parent

variable {libraries : Libraries} {handling : Handling} {node : GossipNode} {block : Block}

theorem missesParent_of_stored {chain : Blockchain}
    (known : ∀ parent ∈ parents, chain.Stored parent) : missesParent chain parents = .ok false := by
  induction parents with
  | nil => rfl
  | cons parent rest ih =>
    obtain ⟨stored, answered⟩ := known parent List.mem_cons_self
    unfold missesParent
    rw [answered]
    exact ih fun other listed => known other (List.mem_cons_of_mem _ listed)

theorem missesParent_of_missing {chain : Blockchain} (bounded : chain.InBounds)
    (missing : ¬∀ parent ∈ parents, chain.Stored parent) :
    missesParent chain parents = .ok true := by
  induction parents with
  | nil => simp at missing
  | cons parent rest ih =>
    unfold missesParent
    obtain ⟨found, answered⟩ := getBlockByHash_of_inBounds bounded
    rw [answered]
    cases found with
    | none => rfl
    | some stored =>
      refine ih fun others => missing ?_
      rw [List.forall_mem_cons]
      exact ⟨⟨stored, answered⟩, others⟩

/-- A block is accepted as new and appended, or all blocks stay as they are. -/
theorem offer_cases (call : Offer) :
    (∃ after, addBlockForSync libraries.host (handling.conditions call) block node.chain =
        .ok true after ∧
      offer libraries handling call block node = .ok (.ok true) { node with chain := after }) ∨
    ((∀ after, addBlockForSync libraries.host (handling.conditions call) block node.chain ≠
        .ok true after) ∧
      ∃ after, SameBlocks node.chain after ∧
        ((∃ result, result ≠ .ok true ∧
            offer libraries handling call block node = .ok result { node with chain := after }) ∨
          offer libraries handling call block node =
            .error .panic { node with chain := after })) := by
  have same :=
    @sameBlocks_addBlockForSync libraries.host (handling.conditions call) block node.chain
  unfold offer
  cases done : addBlockForSync libraries.host (handling.conditions call) block node.chain with
  | ok added after =>
    cases added with
    | true => exact .inl ⟨after, rfl, rfl⟩
    | false =>
      rw [done] at same
      exact .inr ⟨by simp, after, same (by simp), .inl ⟨.ok false, by simp, rfl⟩⟩
  | error fault after =>
    rw [done] at same
    cases fault with
    | error reason =>
      exact .inr ⟨by simp, after, same (by simp), .inl ⟨.error reason, by simp, rfl⟩⟩
    | panic => exact .inr ⟨by simp, after, same (by simp), .inr rfl⟩

theorem finalState_keepOrphan {block : Block} {node : GossipNode} :
    ∃ written, finalState (keepOrphan handling block node) =
      { node with orphanPool := (node.orphanPool.addOrphan block).2, written } := by
  unfold keepOrphan
  rw [get_bind]
  dsimp only
  split <;> exact ⟨_, rfl⟩

/-- The node once the hash of a block is marked as seen. -/
def saw (handling : Handling) (hash : Hash) (node : GossipNode) : GossipNode :=
  { node with blockSeen := markSeen handling.hashOrder handling.now node.blockSeen hash }

theorem newBlock_of_seen (seen : block.hash ∈ node.blockSeen) :
    finalState (newBlock libraries handling block node) = node := by
  unfold newBlock
  rw [get_bind, if_pos seen]
  rfl

section Unseen

variable (unseen : block.hash ∉ node.blockSeen)

include unseen

theorem newBlock_of_orphan (bounded : node.chain.InBounds)
    (missing : ¬ParentsStored node.chain block) :
    ∃ written, finalState (newBlock libraries handling block node) =
      { node.saw handling block.hash with orphanPool :=
        (node.orphanPool.addOrphan block).2, written } := by
  have isOrphan : missesParent node.chain block.header.parentHashes = .ok true :=
    missesParent_of_missing bounded missing
  unfold newBlock
  rw [get_bind, if_neg unseen, isOrphan]
  exact finalState_keepOrphan

variable (parents : ParentsStored node.chain block)

include parents

theorem newBlock_of_parents : newBlock libraries handling block node =
    (offer libraries handling (.received 0) block >>= fun result =>
      match result with
      | .ok true => unblockOrphans libraries handling >>= fun _ =>
        relayBlockToPeers libraries handling block
      | .ok false => pure ()
      | .error _ => punish handling .invalidBlock) (node.saw handling block.hash) := by
  have complete : missesParent node.chain block.header.parentHashes = .ok false :=
    missesParent_of_stored parents
  unfold newBlock
  rw [get_bind, if_neg unseen, complete]
  rfl

/-- A block the chain takes is followed by the pass over the orphans. -/
theorem newBlock_of_added
    (added : addBlockForSync libraries.host (handling.conditions (.received 0)) block
      node.chain = .ok true after) :
    ∃ written, finalState (newBlock libraries handling block node) =
      { finalState (unblockOrphans libraries handling
          { node.saw handling block.hash with chain := after }) with
        written } := by
  have offered : offer libraries handling (.received 0) block (node.saw handling block.hash) =
      .ok (.ok true) { node.saw handling block.hash with chain := after } := by
    unfold offer
    rw [show (node.saw handling block.hash).chain = node.chain from rfl, added]
  rw [newBlock_of_parents unseen parents, bind_of_ok offered]
  dsimp only
  cases ran : unblockOrphans libraries handling { node.saw handling block.hash with chain :=
    after } with
  | ok done passed =>
    rw [bind_of_ok ran]
    exact ⟨_, rfl⟩
  | error fault stopped =>
    rw [bind_of_error ran]
    exact ⟨_, rfl⟩

theorem newBlock_of_rejected
    (rejected : ∀ after, addBlockForSync libraries.host (handling.conditions (.received 0)) block
      node.chain ≠ .ok true after) :
    ∃ after peerScores, SameBlocks node.chain after ∧
      finalState (newBlock libraries handling block node) =
        { node.saw handling block.hash with chain := after, peerScores } := by
  rw [newBlock_of_parents unseen parents]
  rcases @offer_cases libraries handling (node.saw handling block.hash) block (.received 0) with
    ⟨after, added, -⟩ | ⟨-, after, same, ⟨result, notNew, offered⟩ | offered⟩
  · exact absurd added (rejected after)
  · refine ⟨after, ?_⟩
    rw [bind_of_ok offered]
    cases result with
    | ok added =>
      cases added with
      | true => exact absurd rfl notNew
      | false => exact ⟨_, same, rfl⟩
    | error reason => exact ⟨_, same, rfl⟩
  · refine ⟨after, ?_⟩
    rw [bind_of_error offered]
    exact ⟨_, same, rfl⟩

end Unseen

theorem blocks_offerOrphans (index : ℕ) (hashes : List Hash) (node : GossipNode) :
    node.chain.blocks.blocks <+:
      (finalState (offerOrphans libraries handling index hashes node)).chain.blocks.blocks := by
  induction hashes generalizing index node with
  | nil => exact List.prefix_rfl
  | cons hash rest ih =>
    unfold offerOrphans
    rw [get_bind]
    cases node.orphanPool.tryProcessOrphan hash with
    | none => exact ih (index + 1) node
    | some taken =>
      obtain ⟨orphan, orphanPool⟩ := taken
      dsimp only
      rw [set_bind]
      rcases @offer_cases libraries handling { node with orphanPool } orphan (.orphan 0 index) with
        ⟨after, added, offered⟩ | ⟨-, after, same, ⟨result, -, offered⟩ | offered⟩
      · rw [bind_of_ok offered]
        refine List.IsPrefix.trans ?_ (ih (index + 1) _)
        rw [(appended_addBlockForSync added).blocks]
        exact List.prefix_append _ _
      · rw [bind_of_ok offered]
        refine List.IsPrefix.trans ?_ (ih (index + 1) _)
        rw [same.blocks]
      · rw [bind_of_error offered]
        show node.chain.blocks.blocks <+: after.blocks.blocks
        rw [same.blocks]

end GossipNode

end IronDag
