import IronDag.Chain.Twin
import IronDag.Mining.Fees

namespace IronDag

open Blockchain Ledger

/-- A mined block, and what the two nodes meet while they handle it. -/
structure SharedBlock where
  miner : Address
  submission : BlockSubmission
  mining : Conditions
  syncing : Conditions

structure Nodes where
  miner : Blockchain
  peer : Blockchain

/-- The nodes hold the same accounts and everything that goes with them, the same recurring
transactions and the same governance schedule. -/
structure Nodes.Equal (nodes : Nodes) : Prop where
  ledger : Alike nodes.miner.toLedger nodes.peer.toLedger
  recurring : nodes.miner.recurringManager = nodes.peer.recurringManager
  governance : nodes.miner.governanceScheduler = nodes.peer.governanceScheduler

namespace SharedBlock

variable (host : Host) (shared : SharedBlock) (nodes : Nodes)

/-- Both nodes handle the block. -/
def apply : Nodes where
  miner := (nodes.miner.processSubmission host shared.mining shared.miner shared.submission).2
  peer := Fallible.finalState
    (Blockchain.addBlockForSync host shared.syncing shared.submission.block nodes.peer)

/-- The miner commits the block and the peer accepts it. -/
def Taken : Prop :=
  (∃ after, nodes.miner.processSubmission host shared.mining shared.miner shared.submission =
    (.committed, after)) ∧
    ∃ added after,
      Blockchain.addBlockForSync host shared.syncing shared.submission.block
      nodes.peer = .ok added after

/-- The block sets off nothing that only the miner does: it earns nothing, no recurring transaction
and no governance action is due, the nodes meet the same locks, and the account that the reward
goes to is where a write of its balance changes nothing. -/
structure Quiet : Prop where
  reward : getBlockReward shared.submission.blockNumber shared.submission.streamType = 0
  share : (BlockFees.ofBlock shared.submission.block).minerPriorityShare = 0
  recurring : ∀ manager, nodes.miner.recurringManager = some manager →
    manager.Idle shared.submission.block.header.timestamp
  governance : nodes.miner.governanceScheduler.Idle shared.submission.block.header.blockNumber
  matching : ∀ index, Alike.Matching nodes.miner.toLedger (shared.mining.encounters index)
    (shared.syncing.encounters index)
  account : nodes.miner.database = none ∨ (nodes.miner.verkleState = none ∧
    ∃ database balance, nodes.miner.database = some database ∧
      database.getBalance shared.miner = some balance)

end SharedBlock

namespace Blockchain

variable {conditions : Conditions} {block : Block} {chain : Blockchain}

theorem pruneSpentOutputs_again {ledger pruned : Ledger}
    (once : pruned.spentOutputs = (ledger.pruneSpentOutputs height).spentOutputs) :
    pruned.pruneSpentOutputs height = pruned := by
  unfold pruneSpentOutputs at once ⊢
  split
  · rfl
  · next deep =>
    rw [if_neg deep] at once
    have retained : Table.retain (fun _ entry => decide (height - finalityDepth < entry.2))
        pruned.spentOutputs = pruned.spentOutputs := by
      rw [once, Table.retain_retain]
    rw [retained]

/-- What `finishBlock` does where nothing is due. -/
theorem finishBlock_of_idle {ledger : Ledger} (crypto : Crypto)
    (pruned : chain.spentOutputs = (ledger.pruneSpentOutputs block.header.blockNumber).spentOutputs)
    (recurring : ∀ manager, chain.recurringManager = some manager →
      manager.Idle block.header.timestamp)
    (governance : chain.governanceScheduler.Idle block.header.blockNumber) :
    (chain.finishBlock crypto conditions block).toLedger = chain.toLedger ∧
      (chain.finishBlock crypto conditions block).recurringManager = chain.recurringManager ∧
      (chain.finishBlock crypto conditions block).governanceScheduler =
        chain.governanceScheduler := by
  have periodic : (chain.prunePeriodically block).toLedger = chain.toLedger ∧
      (chain.prunePeriodically block).recurringManager = chain.recurringManager ∧
      (chain.prunePeriodically block).governanceScheduler = chain.governanceScheduler := by
    unfold prunePeriodically
    split
    · exact ⟨pruneSpentOutputs_again pruned, rfl, rfl⟩
    · exact ⟨rfl, rfl, rfl⟩
  obtain ⟨ledgerKept, recurringKept, governanceKept⟩ := periodic
  have none : (chain.prunePeriodically block).processRecurringTransactions crypto conditions block =
      chain.prunePeriodically block := by
    unfold processRecurringTransactions
    rw [recurringKept]
    cases managed : chain.recurringManager with
    | none => rfl
    | some manager =>
      dsimp only
      rw [RecurringTransactionManager.getReadyToExecute_eq_nil manager (recurring manager managed)]
      rfl
  unfold finishBlock
  rw [none]
  refine ⟨ledgerKept, recurringKept, ?_⟩
  show (chain.prunePeriodically block).governanceScheduler.applyAtHeight
    block.header.blockNumber = _
  rw [governanceKept, GovernanceScheduler.applyAtHeight_of_idle governance]

theorem creditMiner_of_unrewarded
    (reward : getBlockReward submission.blockNumber submission.streamType = 0)
    (share : (BlockFees.ofBlock submission.block).minerPriorityShare = 0) :
    (chain.creditMiner miner submission).toLedger =
      chain.toLedger.setBalance miner (chain.toLedger.getBalance miner) := by
  have nothing : submission.totalMinerReward = 0 := by
    rw [BlockSubmission.totalMinerReward, reward, share]
    decide
  have same : Word.saturatingAdd (chain.toLedger.getBalance miner) 0 =
      chain.toLedger.getBalance miner := by
    apply BitVec.eq_of_toNat_eq
    rw [Word.toNat_saturatingAdd]
    show min (_ + 0) _ = _
    omega
  unfold creditMiner
  rw [nothing]
  show chain.toLedger.setBalance miner (Word.saturatingAdd (chain.toLedger.getBalance miner) 0) = _
  rw [same]

/-- An account in the database is still there after a block is committed. -/
theorem account_of_processed
    (processed : validateAndProcessTransactions host encounters block
      chain.toLedger = .ok () ledger)
    (account : chain.database = none ∨ (chain.verkleState = none ∧
      ∃ database balance, chain.database = some database ∧
        database.getBalance address = some balance)) :
    let committed := { chain with toLedger := ledger }.commitBlock conditions block
    committed.database = none ∨ (committed.verkleState = none ∧
      ∃ database balance, committed.database = some database ∧
        database.getBalance address = some balance) := by
  have frame := keeps_validateAndProcessTransactions host encounters block chain.toLedger
  rw [processed] at frame
  obtain ⟨write, blind, written⟩ := frame.database
  dsimp only [commitBlock]
  change ledger.database = chain.database.map write at written
  rcases account with absent | ⟨noVerkle, database, balance, present, known⟩
  · left
    rw [written, absent]
    rfl
  · right
    refine ⟨?_, ?_⟩
    · have kept : ledger.verkleState.isSome = chain.verkleState.isSome := frame.verkleState
      rw [noVerkle] at kept
      exact Option.not_isSome_iff_eq_none.mp (by rw [kept]; simp)
    · cases still : (write database).getBalance address with
      | none =>
        have lost := blind.balances database address still
        cases known.symm.trans lost
      | some kept =>
        exact ⟨(write database).putBlock block, kept, by rw [written, present]; rfl, still⟩

end Blockchain

namespace SharedBlock

variable {shared : SharedBlock}

/-- A quiet block that both nodes take leaves them equal. -/
theorem equal_apply (equal : nodes.Equal) (taken : shared.Taken host nodes)
    (quiet : shared.Quiet nodes) : (shared.apply host nodes).Equal := by
  obtain ⟨⟨after, committed⟩, added, synced, accepted⟩ := taken
  obtain ⟨-, -, -, mined, stored, rfl⟩ := processSubmission_eq_committed.mp committed
  obtain ⟨checked, -, ledger, processed, rfl⟩ := addBlockImpl_eq_ok.mp stored
  have blocks : nodes.miner.blocks = nodes.peer.blocks := equal.ledger.same blocks fun _ => rfl
  obtain ⟨-, ⟨known, -⟩ | ⟨-, -, -, peerLedger, peerProcessed, rfl⟩⟩ :=
    addBlockForSync_eq_ok.mp accepted
  · rw [← blocks] at known
    exact absurd known (new_of_checkBlock checked)
  · let minerCommitted :=
      { nodes.miner with toLedger := ledger }.commitBlock shared.mining shared.submission.block
    let peerCommitted :=
      { nodes.peer with toLedger := peerLedger }.commitBlock shared.syncing shared.submission.block
    have alike : Alike minerCommitted.toLedger peerCommitted.toLedger :=
      (twin_commitBlock StateDatabase.kept_alike
        (equal.ledger.validateAndProcessTransactions quiet.matching
          processed peerProcessed).twin).toAlike
    obtain ⟨-, applied, -, pruned⟩ := validateAndProcessTransactions_eq_ok.mp processed
    have prunedOutputs : minerCommitted.spentOutputs =
        (applied.pruneSpentOutputs shared.submission.block.header.blockNumber).spentOutputs := by
      rw [← pruned]
      rfl
    obtain ⟨ledgerKept, recurringKept, governanceKept⟩ := @finishBlock_of_idle shared.mining
      shared.submission.block minerCommitted applied host.crypto prunedOutputs quiet.recurring
        quiet.governance
    unfold apply
    rw [committed, accepted]
    refine ⟨?_, ?_, ?_⟩
    · rw [creditMiner_of_unrewarded quiet.reward quiet.share, ledgerKept]
      exact alike.setBalance_same (account_of_processed processed quiet.account)
    · exact recurringKept.trans equal.recurring
    · exact governanceKept.trans equal.governance

/-- From equal states, the nodes are equal after every block of a common sequence of quiet
blocks. -/
theorem equal_of_run {host : Host} {start : Nodes} {blocks : List SharedBlock} (equal : start.Equal)
    (taken : ∀ entry ∈ Run.visited (apply host) start blocks, entry.2.Taken host entry.1)
    (quiet : ∀ entry ∈ Run.visited (apply host) start blocks, entry.2.Quiet entry.1) :
    ∀ nodes ∈ Run.states (apply host) start blocks, nodes.Equal := by
  refine Run.invariant_states
    (fun nodes shared same (met : shared.Taken host nodes ∧ shared.Quiet nodes) =>
    equal_apply same met.1 met.2) equal ?_
  intro entry visited
  exact ⟨taken entry visited, quiet entry visited⟩

end SharedBlock

namespace Blockchain

def openedNodes : Nodes where
  miner := openedChain
  peer := openedChain

/-- A block of stream C with a transfer that pays the base fee and no tip. -/
def rollupBlock : Block :=
  Block.new Crypto.sample
    { parentHashes := [genesisBlock.hash], blockNumber := 1, streamType := .streamC, difficulty := 0
      timestamp := 1600000010, nonce := 0, baseFeePerGas := 1, hashVersion := 1 } [paidTransfer]

def sharedRollup : SharedBlock where
  miner := 8
  submission := { block := rollupBlock, streamType := .streamC, blockNumber := 1 }
  mining := Conditions.uncontended 1600000020
  syncing := Conditions.uncontended 1600000020

/-- A block of stream A. -/
def sharedReward : SharedBlock where
  miner := 8
  submission := submitted []
  mining := Conditions.uncontended 1600000020
  syncing := Conditions.uncontended 1600000020

theorem sharedRollup_taken : sharedRollup.Taken Host.sample openedNodes :=
  ⟨⟨_, committed_of_outcome (by decide +kernel)⟩, true, _,
    Fallible.eq_ok_of_returned (by decide +kernel)⟩

theorem sharedRollup_quiet : sharedRollup.Quiet openedNodes := by
  have unmanaged :
      openedChain.recurringManager.all (fun manager => decide (manager.keys = ∅)) = true := by
    decide +kernel
  refine ⟨by decide +kernel, by decide +kernel, ?_, ?_, fun index => ⟨rfl, fun _ => rfl⟩, .inl rfl⟩
  · intro manager managed
    have managed : openedChain.recurringManager = some manager := managed
    rw [managed, Option.all_some, decide_eq_true_eq] at unmanaged
    exact manager.idle_of_no_keys unmanaged
  · intro action pending
    have pending : action ∈ openedChain.governanceScheduler.pending := pending
    cases pending

theorem sharedRollup_equal :
    rollupBlock ∈
      (Run.run (SharedBlock.apply Host.sample) openedNodes [sharedRollup]).peer.blocks.blocks ∧
      ∀ nodes ∈ Run.states (SharedBlock.apply Host.sample) openedNodes [sharedRollup],
        nodes.Equal := by
  have equal : openedNodes.Equal := ⟨Alike.refl _, rfl, rfl⟩
  have only : ∀ entry ∈ Run.visited (SharedBlock.apply Host.sample) openedNodes [sharedRollup],
      entry = (openedNodes, sharedRollup) := fun entry visited => List.mem_singleton.mp visited
  refine ⟨by decide +kernel, SharedBlock.equal_of_run equal ?_ ?_⟩
  · intro entry visited
    rw [only entry visited]
    exact sharedRollup_taken
  · intro entry visited
    rw [only entry visited]
    exact sharedRollup_quiet

/-- The miner has the reward and the peer does not know of it. -/
theorem sharedReward_divides : sharedReward.Taken Host.sample openedNodes ∧
      (sharedReward.apply Host.sample openedNodes).miner.getBalance 8 ≠
        (sharedReward.apply Host.sample openedNodes).peer.getBalance 8 := by
  refine ⟨⟨⟨_, committed_of_outcome (by decide +kernel)⟩, true, _,
    Fallible.eq_ok_of_returned (by decide +kernel)⟩, ?_⟩
  decide +kernel

end Blockchain

end IronDag
