import IronDag.Mining.Node

namespace IronDag

/-- The lower bound of the difficulty adjustment, for each stream. -/
def minDifficulty : U64 := 1

namespace Block

def powHash (crypto : Crypto) (block : Block) : Option Hash :=
  match block.header.streamType with
  | .streamA => some (block.header.hashBlake3 crypto (block.transactionsRoot crypto))
  | .streamB => some (block.header.hashB3memhash crypto (block.transactionsRoot crypto))
  | .streamC => none

/-- A non-genesis block of stream A or B has its hash, and the hash meets a difficulty that is not
below the minimum. -/
def WorkProven (crypto : Crypto) (block : Block) : Prop :=
  block.header.blockNumber ≠ 0 → ∀ hash, block.powHash crypto = some hash →
    block.hash = hash ∧ meetsDifficulty block.hash block.header.difficulty = true ∧
      minDifficulty ≤ block.header.difficulty

/-- The hash that a non-genesis block of stream A or B carries meets the difficulty it declares,
and that is not below the minimum. -/
def MeetsDeclared (block : Block) : Prop :=
  block.header.blockNumber ≠ 0 → block.header.streamType ≠ .streamC →
    meetsDifficulty block.hash block.header.difficulty = true ∧
      minDifficulty ≤ block.header.difficulty

instance (block : Block) : Decidable block.MeetsDeclared :=
  inferInstanceAs (Decidable (_ → _ → _ ∧ _))

theorem powHash_eq_some {block : Block} {hash : Hash} (found : block.powHash crypto = some hash) :
    block.header.streamType ≠ .streamC ∧ block.calculateHash crypto = hash := by
  unfold powHash at found
  unfold calculateHash
  cases stream : block.header.streamType with
  | streamA =>
    rw [stream] at found
    exact ⟨by simp, Option.some.inj found⟩
  | streamB =>
    rw [stream] at found
    exact ⟨by simp, Option.some.inj found⟩
  | streamC =>
    rw [stream] at found
    cases found

end Block

namespace Blockchain

/-- Every stored block has its work proven. -/
def WorkEnforced (crypto : Crypto) (chain : Blockchain) : Prop :=
  ∀ block ∈ chain.blocks.blocks, block.WorkProven crypto

theorem workProven_of_hashChecked (checked : HashChecked crypto block)
    (declared : block.MeetsDeclared) : block.WorkProven crypto := by
  intro later hash found
  obtain ⟨stream, computed⟩ := Block.powHash_eq_some found
  obtain ⟨meets, minimum⟩ := declared later stream
  exact ⟨(checked later).trans computed, meets, minimum⟩

theorem workEnforced_apply {step : Step} (enforced : chain.WorkEnforced host.crypto)
    (declared : step.call.block.MeetsDeclared) :
    (step.apply host chain).WorkEnforced host.crypto := by
  intro block stored
  rcases step.blocks_apply host chain with same | ⟨pushed, checked⟩
  · rw [same] at stored
    exact enforced block stored
  · rw [pushed] at stored
    rcases List.mem_append.mp stored with old | new
    · exact enforced block old
    · rw [List.mem_singleton.mp new]
      exact workProven_of_hashChecked checked declared

/-- From an empty chain, work is enforced in every state of a run whose blocks all meet the
difficulty they declare. -/
theorem workEnforced_of_run {host : Host} {start : Blockchain} {steps : List Step}
    (empty : start.blocks.blocks = []) (declared : ∀ step ∈ steps, step.call.block.MeetsDeclared) :
    ∀ chain ∈ Run.states (Step.apply host) start steps, chain.WorkEnforced host.crypto := by
  have initial : start.WorkEnforced host.crypto := by
    intro block stored
    rw [empty] at stored
    cases stored
  refine Run.invariant_states
    (fun chain step enforced met => workEnforced_apply enforced met) initial ?_
  intro entry visited
  exact declared entry.2 (Run.mem_inputs_of_visited visited)

theorem childBlock_work_enforced :
    childBlock 2 [] ∈
      (Run.run (Step.apply Host.sample) Blockchain.new
        (addGenesisAnd (childBlock 2 []))).blocks.blocks ∧
      ∀ chain ∈ Run.states (Step.apply Host.sample) Blockchain.new
        (addGenesisAnd (childBlock 2 [])), chain.WorkEnforced Crypto.sample := by
  refine ⟨by decide +kernel, workEnforced_of_run rfl ?_⟩
  intro step member
  simp only [addGenesisAnd, List.mem_cons, List.not_mem_nil, or_false] at member
  rcases member with rfl | rfl
  · decide +kernel
  · decide +kernel

theorem childBlock_stored_without_work :
    childBlock 32 [] ∈
      (Run.run (Step.apply Host.sample) Blockchain.new
        (addGenesisAnd (childBlock 32 []))).blocks.blocks ∧
      ¬(childBlock 32 []).WorkProven Crypto.sample := by
  refine ⟨by decide +kernel, fun proven => ?_⟩
  have meets := (proven (by decide) _ rfl).2.1
  revert meets
  decide +kernel

end Blockchain

end IronDag
