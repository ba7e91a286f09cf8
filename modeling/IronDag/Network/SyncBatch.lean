import IronDag.Chain.Blockchain
import IronDag.Lib.TopologicalSort

/-! How a client checks and orders the blocks of a batch. -/

namespace IronDag

open TopologicalSort

def leadingZeroBits : Bytes → ℕ
  | [] => 0
  | byte :: rest => if byte = 0 then 8 + leadingZeroBits rest else 7 - Nat.log2 byte.toNat

def verifyBlockPow (block : Block) : Bool :=
  if block.header.blockNumber = 0 then true
  else if block.header.streamType = .streamC then true
  else if block.header.difficulty = 0 then false
  else decide (block.header.difficulty.toNat ≤ leadingZeroBits (Bytes.be block.hash))

def topologicalSortBlocks (orders : Orders Hash) (blocks : List Block) : List Block :=
  sort Block.hash (fun block => block.header.parentHashes) orders blocks

/-- No block of the batch descends from itself. -/
def AcyclicBatch (blocks : List Block) : Prop :=
  ∀ hash, ¬Relation.TransGen
    (Names Block.hash (fun block => block.header.parentHashes) blocks) hash hash

theorem topologicalSortBlocks_spec (orders : Orders Hash) (blocks : List Block)
    (acyclic : AcyclicBatch blocks) :
    NoUnderflow Block.hash (fun block => block.header.parentHashes) orders blocks ∧
      (∃ rounds, (afterRounds Block.hash (fun block => block.header.parentHashes) orders blocks
        rounds).queue = []) ∧
      topologicalSortBlocks orders blocks ⊆ blocks ∧
      ((topologicalSortBlocks orders blocks).map Block.hash).Nodup ∧
      (∀ hash, hash ∈ (topologicalSortBlocks orders blocks).map Block.hash ↔
        hash ∈ blocks.map Block.hash) ∧
      ∀ front block back, topologicalSortBlocks orders blocks = front ++ block :: back →
        ∀ parent ∈ block.header.parentHashes, parent ∈ blocks.map Block.hash →
          parent ∈ front.map Block.hash :=
  sort_acyclic orders blocks acyclic

/-- The hashes in ascending order, wherever they are iterated. -/
def ascendingOrders : Orders Hash :=
  let hashes := SetIteration.ascendingBy BitVec.toNat Hash.toNat_injective
  ⟨hashes, hashes, hashes⟩

/-- A block that names its parent twice, sent before it. -/
def reversedBatch : List Block :=
  let child := Blockchain.childBlock 1 []
  [{ child with header := { child.header with parentHashes := [3, 3] }, hash := 7 },
    { Blockchain.genesisBlock with hash := 3 }]

/-- Every parent has the smaller hash. -/
theorem acyclicBatch_reversedBatch : AcyclicBatch reversedBatch := by
  have smaller : ∀ parent child,
      Names Block.hash (fun block => block.header.parentHashes) reversedBatch parent child →
        parent.toNat < child.toNat := by
    rintro parent child ⟨-, block, listed, rfl, names⟩
    rcases List.mem_pair.mp listed with rfl | rfl
    · rw [List.mem_pair, or_self] at names
      subst names
      decide
    · exact absurd names List.not_mem_nil
  intro hash cycle
  have below := cycle.lift BitVec.toNat smaller
  rw [Relation.transGen_eq_self] at below
  exact lt_irrefl _ below

theorem reversedBatch_sorted :
    AcyclicBatch reversedBatch ∧
      3 ∈ (topologicalSortBlocks ascendingOrders reversedBatch).map Block.hash :=
  ⟨acyclicBatch_reversedBatch,
    ((topologicalSortBlocks_spec ascendingOrders reversedBatch acyclicBatch_reversedBatch).2.2.2.2.1
      3).mpr (by decide)⟩

end IronDag
