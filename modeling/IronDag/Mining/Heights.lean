import IronDag.Mining.ProofOfWork

namespace IronDag

open Blockchain List

/-- At most one block has the number zero, and every other block a number above those of its parents
among the blocks. -/
structure Layered (blocks : List Block) : Prop where
  genesis : (blocks.filter fun block => decide (block.header.blockNumber = 0)).length ≤ 1
  above : ∀ block ∈ blocks, block.header.blockNumber ≠ 0 → ∀ parent ∈ blocks,
    parent.hash ∈ block.header.parentHashes → parent.header.blockNumber < block.header.blockNumber

/-- A block that goes on top: its number is above those of its parents, and no block before it,
nor the block itself, names it as a parent. -/
structure Block.OnTop (block : Block) (blocks : List Block) : Prop where
  above : block.header.blockNumber ≠ 0 → ∀ parent ∈ blocks,
    parent.hash ∈ block.header.parentHashes → parent.header.blockNumber < block.header.blockNumber
  unnamed : ∀ known ∈ blocks, block.hash ∉ known.header.parentHashes
  notOwn : block.hash ∉ block.header.parentHashes

theorem Layered.nil : Layered [] where
  genesis := Nat.zero_le 1
  above := fun _ stored => by cases stored

theorem Layered.push (layered : Layered blocks)
    (first : block.header.blockNumber = 0 → blocks = []) (top : block.OnTop blocks) :
    Layered (blocks ++ [block]) := by
  constructor
  · by_cases zero : block.header.blockNumber = 0
    · rw [first zero]
      exact length_filter_le _ _
    · have skipped : [block].filter (fun block => decide (block.header.blockNumber = 0)) = [] := by
        simpa using zero
      rw [filter_append, skipped, append_nil]
      exact layered.genesis
  · intro child stored later parent known named
    rcases mem_append.mp stored with old | new
    · rcases mem_append.mp known with before | added
      · exact layered.above child old later parent before named
      · rw [mem_singleton.mp added] at named
        exact absurd named (top.unnamed child old)
    · rw [mem_singleton.mp new] at later named ⊢
      rcases mem_append.mp known with before | added
      · exact top.above later parent before named
      · rw [mem_singleton.mp added] at named
        exact absurd named top.notOwn

/-- A call whose block is new brings a block that goes on top; a received genesis block comes
first. -/
structure Step.InOrder (step : Step) (chain : Blockchain) : Prop where
  first : ∀ block, step.call = .sync block → block.header.blockNumber = 0 → chain.blocks.blocks = []
  top : step.call.block.OnTop chain.blocks.blocks

theorem layered_apply {step : Step} (layered : Layered chain.blocks.blocks)
    (inOrder : step.call.block.hash ∉ chain.blocks.blockHashes → step.InOrder chain) :
    Layered (step.apply host chain).blocks.blocks := by
  rcases step.index_apply host chain with same | stores
  · have kept : (step.apply host chain).blocks = chain.blocks := congrArg ChainIndex.data same
    rw [kept]
    exact layered
  · have pushed : (step.apply host chain).blocks = pushBlock chain.blocks step.call.block :=
      congrArg ChainIndex.data stores.index
    obtain ⟨received, top⟩ := inOrder stores.fresh
    rw [pushed]
    refine layered.push (fun genesis => ?_) top
    by_cases sync : ∃ block, step.call = .sync block
    · obtain ⟨block, call⟩ := sync
      refine received block call ?_
      rw [call] at genesis
      exact genesis
    · exact stores.first (fun block call => sync ⟨block, call⟩) genesis

/-- From an empty chain, the blocks are layered in every state of a run whose new blocks all come
in order. -/
theorem layered_of_run {host : Host} {start : Blockchain} {steps : List Step}
    (empty : start.blocks.blocks = [])
    (inOrder : ∀ entry ∈ Run.visited (Step.apply host) start steps,
      entry.2.call.block.hash ∉ entry.1.blocks.blockHashes → entry.2.InOrder entry.1) :
    ∀ chain ∈ Run.states (Step.apply host) start steps, Layered chain.blocks.blocks := by
  have initial : Layered start.blocks.blocks := by
    rw [empty]
    exact Layered.nil
  exact Run.invariant_states (fun chain step layered met => layered_apply layered met)
    initial inOrder

namespace Blockchain

def rivalGenesis : Block :=
  Block.new Crypto.sample { genesisBlock.header with timestamp := 1600000005 } []

/-- A child of the genesis block that skips some numbers. -/
def skippingBlock : Block :=
  Block.new Crypto.sample { (childBlock 2 []).header with blockNumber := 7 } []

/-- A child of the block that skips, with a lower number. -/
def loweredBlock : Block :=
  Block.new Crypto.sample
    { (childBlock 2 []).header with parentHashes := [skippingBlock.hash], blockNumber := 3 } []

def syncAll (blocks : List Block) : List Step :=
  blocks.map fun block => ⟨.sync block, Conditions.uncontended 1600000020⟩

theorem childBlock_layered : childBlock 2 [] ∈
        (Run.run (Step.apply Host.sample) new
          (syncAll [genesisBlock, childBlock 2 []])).blocks.blocks ∧
      ∀ chain ∈ Run.states (Step.apply Host.sample) new (syncAll [genesisBlock, childBlock 2 []]),
        Layered chain.blocks.blocks := by
  refine ⟨by decide +kernel, layered_of_run rfl ?_⟩
  intro entry visited _
  simp only [syncAll, map_cons, map_nil, Run.visited_cons, Run.visited_nil, mem_cons,
    not_mem_nil, or_false] at visited
  rcases visited with rfl | rfl
  · refine ⟨fun _ _ _ => rfl, fun zero => absurd rfl zero, ?_, by decide⟩
    intro known stored
    cases stored
  · refine ⟨?_, ?_⟩
    · intro block call genesis
      cases call
      exact absurd genesis (by decide)
    · exact ⟨by decide +kernel, by decide +kernel, by decide +kernel⟩

theorem received_blocks_not_layered :
    ¬Layered (Run.run (Step.apply Host.sample) new
      (syncAll [genesisBlock, rivalGenesis])).blocks.blocks ∧
      ¬Layered (Run.run (Step.apply Host.sample) new
        (syncAll [genesisBlock, skippingBlock, loweredBlock])).blocks.blocks := by
  have rivals :
      (Run.run (Step.apply Host.sample) new (syncAll [genesisBlock, rivalGenesis])).blocks.blocks =
      [genesisBlock, rivalGenesis] := by decide +kernel
  have lowered : (Run.run (Step.apply Host.sample) new
      (syncAll [genesisBlock, skippingBlock, loweredBlock])).blocks.blocks =
      [genesisBlock, skippingBlock, loweredBlock] := by decide +kernel
  rw [rivals, lowered]
  constructor
  · intro layered
    exact absurd layered.genesis (by decide)
  · intro layered
    have above :=
      layered.above loweredBlock (by simp) (by decide) skippingBlock (by simp) (by decide +kernel)
    exact absurd above (by decide)

end Blockchain

end IronDag
