import IronDag.Chain.Acceptance
import IronDag.Lib.Run
import IronDag.Mining.Submission

namespace IronDag

open Blockchain Fallible

inductive Call where
  | addBlock (block : Block)
  | submit (miner : Address) (submission : BlockSubmission)
  | sync (block : Block)

def Call.block : Call → Block
  | addBlock block => block
  | submit _ submission => submission.block
  | sync block => block

/-- A call and what it meets. -/
structure Step where
  call : Call
  conditions : Conditions

namespace Step

variable (host : Host) (step : Step) (chain : Blockchain)

/-- The state after the call, whatever it returned. -/
def apply : Blockchain :=
  match step.call with
  | .addBlock block => finalState (addBlock host step.conditions block chain)
  | .submit miner submission => (chain.processSubmission host step.conditions miner submission).2
  | .sync block => finalState (addBlockForSync host step.conditions block chain)

/-- The call reports success. `sync` does so for a block it already has as well. -/
def ReturnsOk : Prop :=
  match step.call with
  | .addBlock block => ∃ after, addBlock host step.conditions block chain = .ok () after
  | .submit miner submission =>
    ∃ after, chain.processSubmission host step.conditions miner submission = (.committed, after)
  | .sync block => ∃ added after, addBlockForSync host step.conditions block chain = .ok added after

end Step

/-- The blocks with the indexes over them, and the counters kept beside them. -/
structure ChainIndex where
  data : BlocksData
  latestBlockNumber : U64
  totalTxCount : U64

def ChainIndex.push (index : ChainIndex) (block : Block) : ChainIndex where
  data := pushBlock index.data block
  latestBlockNumber :=
    if index.latestBlockNumber < block.header.blockNumber then block.header.blockNumber else
      index.latestBlockNumber
  totalTxCount := index.totalTxCount + BitVec.ofNat 64 block.transactions.length

namespace Blockchain

def index (chain : Blockchain) : ChainIndex where
  data := chain.blocks
  latestBlockNumber := chain.cachedLatestBlockNumber
  totalTxCount := chain.cachedTotalTxCount

variable {chain : Blockchain}

/-- What a committed submission has gone through. -/
theorem processSubmission_eq_committed :
    chain.processSubmission host conditions miner submission = (.committed, after) ↔
      submission.block.header.blockNumber = submission.blockNumber ∧
        ¬chain.latestBlockNumber + maxBlockNumberGap < submission.blockNumber ∧
        submission.powHashValid host.crypto = true ∧
        ∃ added, addBlockPreVerified host conditions submission.block chain = .ok () added ∧
          after = added.creditMiner miner submission := by
  unfold processSubmission
  by_cases number : submission.block.header.blockNumber = submission.blockNumber
  · by_cases ahead : chain.latestBlockNumber + maxBlockNumberGap < submission.blockNumber
    · simp [number, ahead]
    · by_cases valid : submission.powHashValid host.crypto = true
      · cases addBlockPreVerified host conditions submission.block chain with
        | ok value added => simp [number, ahead, valid, eq_comm]
        | error fault left => simp [number, ahead, valid]
      · simp [number, ahead, valid]
  · simp [number]

/-- The hash of a block was compared with its contents, or the block is a genesis block. -/
def HashChecked (crypto : Crypto) (block : Block) : Prop :=
  block.header.blockNumber ≠ 0 → block.hash = block.calculateHash crypto

theorem hashChecked_of_checkBlock
    (checked : chain.checkBlock host conditions preVerified block = .ok ())
    (hashed : preVerified = false) :
    HashChecked host.crypto block := by
  intro later
  by_contra different
  have positive : 0 < block.header.blockNumber := by
    have nonzero : block.header.blockNumber.toNat ≠ 0 :=
      fun zero => later (BitVec.eq_of_toNat_eq zero)
    exact Nat.pos_of_ne_zero nonzero
  simp only [checkBlock, bind, Except.bind] at checked
  split at checked
  · cases checked
  · rw [checkBlockHash, if_pos ⟨positive, hashed, different⟩] at checked
    cases checked

theorem hashChecked_of_checkReceived
    (checked : chain.checkReceived host now block = .ok ()) : HashChecked host.crypto block := by
  intro _
  have passed : chain.validateBlockEnhanced host now block = .ok () := by
    unfold checkReceived at checked
    split at checked
    · assumption
    · cases checked
  simp only [validateBlockEnhanced, bind, Except.bind] at passed
  split at passed
  · cases passed
  · split at passed
    · cases passed
    · split at passed
      · cases passed
      · split at passed
        · cases passed
        · exact (Block.verifyTxRoot_eq_ok block).mp passed

theorem new_of_checkBlock (checked : chain.checkBlock host conditions preVerified block = .ok ()) :
    block.hash ∉ chain.blocks.blockHashes := by
  intro known
  rw [checkBlock, Check.bind_eq_ok, Check.bind_eq_ok, Check.bind_eq_ok, Check.bind_eq_ok,
    checkNewBlock, if_pos known] at checked
  cases checked.2.2.2.1

/-- Through `add_block` a genesis block comes first. -/
theorem first_of_checkBlock
    (checked : chain.checkBlock host conditions preVerified block = .ok ())
    (genesis : block.header.blockNumber = 0) :
    chain.blocks.blocks = [] := by
  rw [checkBlock, Check.bind_eq_ok] at checked
  have structured := checked.1
  unfold validateBlockStructure at structured
  dsimp only at structured
  by_contra later
  split at structured
  · cases structured
  · split at structured
    · cases structured
    · split at structured <;> cases structured

theorem index_of_toLedger {after : Blockchain} (kept : Ledger.Frame chain.toLedger after.toLedger)
    (count : after.cachedTotalTxCount = chain.cachedTotalTxCount) : after.index = chain.index := by
  unfold index
  rw [kept.blocks, kept.cachedLatestBlockNumber, count]

theorem Unfinished.index
    (stopped : Unfinished host conditions block chain fault after) : after.index = chain.index := by
  have kept :=
    Ledger.keeps_validateAndProcessTransactions host conditions.encounters block chain.toLedger
  rw [← stopped.toLedger] at kept
  refine index_of_toLedger kept ?_
  rcases stopped with ⟨ledger, -, rfl⟩ | ⟨ledger, reason, left, -, -, -, rfl⟩ <;> rfl

theorem index_commitBlock
    (processed : Ledger.validateAndProcessTransactions host conditions.encounters block
      chain.toLedger = .ok () ledger) :
    ({ chain with toLedger := ledger }.commitBlock conditions block).index =
      chain.index.push block := by
  have kept :=
    Ledger.keeps_validateAndProcessTransactions host conditions.encounters block chain.toLedger
  rw [processed] at kept
  have same : { chain with toLedger := ledger }.index = chain.index := index_of_toLedger kept rfl
  exact congrArg (ChainIndex.push · block) same

/-- Through `add_block` the index stays or is extended by the block. -/
theorem index_addBlockImpl (host : Host) (conditions : Conditions) (preVerified : Bool)
    (block : Block) (chain : Blockchain) :
    (finalState (addBlockImpl host conditions preVerified block chain)).index = chain.index ∨
      ((finalState (addBlockImpl host conditions preVerified block chain)).index =
        chain.index.push block ∧ chain.checkBlock host conditions preVerified block = .ok ()) := by
  cases done : addBlockImpl host conditions preVerified block chain with
  | error fault after =>
    left
    rcases addBlockImpl_eq_error.mp done with ⟨-, rfl⟩ | ⟨-, stopped⟩
    · rfl
    · exact stopped.index
  | ok value after =>
    right
    obtain ⟨checked, -, ledger, processed, rfl⟩ := addBlockImpl_eq_ok.mp done
    obtain ⟨accounts, spent, dag, recurring, governance, finished⟩ :=
      @onlyFinished_finishBlock conditions block host.crypto
        ({ chain with toLedger := ledger }.commitBlock conditions block)
    refine ⟨?_, checked⟩
    rw [finished, ← index_commitBlock processed]
    rfl

/-- A submission goes through `add_block`, and the reward leaves the index alone. -/
theorem index_processSubmission (host : Host) (conditions : Conditions) (miner : Address)
    (submission : BlockSubmission) (chain : Blockchain) :
    (chain.processSubmission host conditions miner submission).2.index = chain.index ∨
      ((chain.processSubmission host conditions miner submission).2.index =
        chain.index.push submission.block ∧ HashChecked host.crypto submission.block ∧
        chain.checkBlock host conditions true submission.block = .ok ()) := by
  unfold processSubmission addBlockPreVerified
  split
  · exact .inl rfl
  · split
    · exact .inl rfl
    · split
      · exact .inl rfl
      · next valid =>
        have hashed : HashChecked host.crypto submission.block := by
          simpa [HashChecked, BlockSubmission.powHashValid] using valid
        have tried := index_addBlockImpl host conditions true submission.block chain
        cases done : addBlockImpl host conditions true submission.block chain with
        | error fault left =>
          rw [done] at tried
          exact tried.imp id fun stored => ⟨stored.1, hashed, stored.2⟩
        | ok value added =>
          rw [done] at tried
          exact tried.imp id fun stored => ⟨stored.1, hashed, stored.2⟩

end Blockchain

/-- A call that reports success for a new block has processed its transactions. -/
theorem Step.processed_of_returnsOk {step : Step}
    (fresh : step.call.block.hash ∉ chain.blocks.blockHashes)
    (accepted : step.ReturnsOk host chain) :
    ∃ ledger, Ledger.validateAndProcessTransactions host step.conditions.encounters step.call.block
      chain.toLedger = .ok () ledger := by
  obtain ⟨call, conditions⟩ := step
  cases call with
  | addBlock block =>
    obtain ⟨after, added⟩ := accepted
    obtain ⟨-, -, ledger, processed, -⟩ := addBlockImpl_eq_ok.mp added
    exact ⟨ledger, processed⟩
  | submit miner submission =>
    obtain ⟨after, committed⟩ := accepted
    obtain ⟨-, -, -, stored, added, -⟩ := processSubmission_eq_committed.mp committed
    obtain ⟨-, -, ledger, processed, -⟩ := addBlockImpl_eq_ok.mp added
    exact ⟨ledger, processed⟩
  | sync block =>
    obtain ⟨added, after, done⟩ := accepted
    obtain ⟨-, ⟨known, -⟩ | ⟨-, -, -, ledger, processed, -⟩⟩ := addBlockForSync_eq_ok.mp done
    · exact absurd known fresh
    · exact ⟨ledger, processed⟩

/-- A call that appends its block to the index, and what was checked of the block. -/
structure Step.Stores (host : Host) (step : Step) (chain : Blockchain) : Prop where
  index : (step.apply host chain).index = chain.index.push step.call.block
  hashChecked : HashChecked host.crypto step.call.block
  fresh : step.call.block.hash ∉ chain.blocks.blockHashes
  first : (∀ block, step.call ≠ .sync block) → step.call.block.header.blockNumber = 0 →
    chain.blocks.blocks = []

/-- Every step leaves the index as it is, or appends its block. -/
theorem Step.index_apply (host : Host) (step : Step) (chain : Blockchain) :
    (step.apply host chain).index = chain.index ∨ step.Stores host chain := by
  obtain ⟨call, conditions⟩ := step
  cases call with
  | addBlock block =>
    rcases index_addBlockImpl host conditions false block chain with same | ⟨pushed, checked⟩
    · exact .inl same
    · exact .inr ⟨pushed, hashChecked_of_checkBlock checked rfl, new_of_checkBlock checked,
        fun _ => first_of_checkBlock checked⟩
  | submit miner submission =>
    rcases index_processSubmission host conditions miner submission chain with
      same | ⟨pushed, hashed, checked⟩
    · exact .inl same
    · exact .inr ⟨pushed, hashed, new_of_checkBlock checked, fun _ => first_of_checkBlock checked⟩
  | sync block =>
    have result : Step.apply host ⟨.sync block, conditions⟩ chain =
        finalState (addBlockForSync host conditions block chain) := rfl
    cases done : addBlockForSync host conditions block chain with
    | error fault after =>
      left
      rw [result, done]
      rcases addBlockForSync_eq_error.mp done with ⟨-, rfl⟩ | ⟨-, -, stopped⟩
      · rfl
      · exact stopped.index
    | ok added after =>
      obtain ⟨checked, ⟨-, -, rfl⟩ | ⟨fresh, -, -, ledger, processed, rfl⟩⟩ :=
        addBlockForSync_eq_ok.mp done
      · left
        rw [result, done, finalState]
      · right
        refine ⟨?_, hashChecked_of_checkReceived checked, fresh, fun own => absurd rfl (own block)⟩
        rw [result, done, finalState, index_commitBlock processed]
        rfl

/-- Every step leaves the blocks as they are, or appends its block with a checked hash. -/
theorem Step.blocks_apply (host : Host) (step : Step) (chain : Blockchain) :
    (step.apply host chain).blocks = chain.blocks ∨
      ((step.apply host chain).blocks = pushBlock chain.blocks step.call.block ∧
        HashChecked host.crypto step.call.block) := by
  rcases step.index_apply host chain with same | stores
  · exact .inl (congrArg ChainIndex.data same)
  · exact .inr ⟨congrArg ChainIndex.data stores.index, stores.hashChecked⟩

/-- The genesis block of the sample library and another block, through `add_block`. -/
def Blockchain.addGenesisAnd (block : Block) : List Step :=
  [⟨.addBlock genesisBlock, Conditions.uncontended 1600000020⟩,
    ⟨.addBlock block, Conditions.uncontended 1600000020⟩]

end IronDag
