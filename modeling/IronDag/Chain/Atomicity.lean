import IronDag.Chain.Acceptance
import IronDag.Chain.Conservation
import IronDag.Chain.Trail

namespace IronDag

open Fallible Ledger Blockchain

namespace Ledger

/-- Code and storage of the contracts, in the memory of the executor and in the database. -/
def contractState (ledger : Ledger) :=
  (ledger.evmExecutor.map EvmExecutor.state, ledger.database.map fun database =>
    (database.contracts, database.legacyContracts, database.storage, database.legacyStorage))

/-- Two ledgers agree on what a rejected block must not change. -/
structure SameState (before after : Ledger) : Prop where
  balances : ∀ address, after.getBalance address = before.getBalance address
  nonces : ∀ address, after.getNonce address = before.getNonce address
  spentOutputs : after.spentOutputs = before.spentOutputs
  sponsorRegistry : after.sponsorRegistry = before.sponsorRegistry
  privacyPool : after.privacyPool = before.privacyPool
  privacyManager : after.privacyManager = before.privacyManager
  contractState : after.contractState = before.contractState
  receipts : after.database.map StateDatabase.receipts = before.database.map StateDatabase.receipts
  blocks : after.blocks = before.blocks

theorem SameState.refl (ledger : Ledger) : SameState ledger ledger :=
  ⟨fun _ => rfl, fun _ => rfl, rfl, rfl, rfl, rfl, rfl, rfl, rfl⟩

theorem sameState_pruneSpentOutputs
    (kept : (ledger.pruneSpentOutputs height).spentOutputs = ledger.spentOutputs) :
    SameState ledger (ledger.pruneSpentOutputs height) := by
  unfold pruneSpentOutputs at kept ⊢
  split
  · exact SameState.refl ledger
  · next deep =>
    rw [if_neg deep] at kept
    exact ⟨fun _ => rfl, fun _ => rfl, kept, rfl, rfl, rfl, rfl, rfl, rfl⟩

/-- What `process_transaction` does ahead of its first write. -/
def startTransaction (host : Host) (encounter : Encounter) (tx : Transaction) (ledger : Ledger) :
    Except ChainFault Unit := do
  ledger.checkReplay tx
  match privacyDataOf tx host with
  | some _ => .ok ()
  | none =>
    match ledger.executorFor tx with
    | some executor => (ledger.execute host encounter executor tx).map fun _ => ()
    | none => (ledger.charge tx).map fun _ => ()

/-- Everything that happens to a transaction of a block ahead of its first write. -/
def checkBeforeWrites (host : Host) (encounter : Encounter) (block : Block) (tx : Transaction)
    (ledger : Ledger) : Except ChainFault Unit := do
  ledger.validateInBlock host encounter block tx
  ledger.startTransaction host encounter tx

/-- A transaction fails between its writes: a transfer that is found inconsistent once it is made,
or an execution whose fee cannot be paid once it has taken effect. -/
inductive StoppedHalfway (host : Host) (encounter : Encounter) (tx : Transaction)
    (ledger : Ledger) : Prop where
  | transfer (native : ledger.executorFor tx = none) (charged : Ledger)
      (done : ledger.charge tx = .ok charged)
      (inconsistent : (charged.settle encounter tx (Word.saturatingAdd (ledger.getNonce tx.from) 1)
        ).verifyPostTransactionConsistency tx ≠ .ok ())
  | execution (executor : EvmExecutor) (enabled : ledger.executorFor tx = some executor)
      (executed : Ledger) (execution : EvmExecutor.Execution)
      (ran : ledger.execute host encounter executor tx = .ok (executed, execution))
      (unpaid : ∀ charged, executed.chargeExecution tx ≠ .ok charged)

theorem processTransaction_of_refused
    (refused : ledger.startTransaction host encounter tx ≠ .ok ()) :
    ∃ fault, processTransaction host encounter tx ledger = .error fault ledger := by
  rw [startTransaction, ne_eq, Check.bind_eq_ok, not_and] at refused
  rw [processTransaction, get_bind]
  cases replay : ledger.checkReplay tx with
  | error fault => exact ⟨fault, rfl⟩
  | ok passed =>
    have stopped := refused replay
    rw [check_bind_of_ok rfl]
    cases data : privacyDataOf tx host with
    | some privacyTx => simp [data] at stopped
    | none =>
      cases enabled : ledger.executorFor tx with
      | some executor =>
        cases ran : ledger.execute host encounter executor tx with
        | error fault => exact ⟨fault, ofExcept_bind_eq_error.mpr (.inl ⟨ran, rfl⟩)⟩
        | ok executed => simp [data, enabled, ran, Except.map] at stopped
      | none =>
        cases done : ledger.charge tx with
        | error fault => exact ⟨fault, ofExcept_bind_eq_error.mpr (.inl ⟨done, rfl⟩)⟩
        | ok charged => simp [data, enabled, done, Except.map] at stopped

theorem stoppedHalfway_of_processTransfer (native : ledger.executorFor tx = none)
    (admitted : ∃ charged, ledger.charge tx = .ok charged)
    (failed : processTransfer encounter tx ledger = .error fault after) :
    StoppedHalfway host encounter tx ledger := by
  obtain ⟨charged, done⟩ := admitted
  rw [processTransfer, get_bind, ofExcept_bind_eq_error] at failed
  rcases failed with ⟨refused, -⟩ | ⟨again, charge, failed⟩
  · cases done.symm.trans refused
  · cases done.symm.trans charge
    rw [set_bind, get_bind, check_bind_eq_error] at failed
    rcases failed with ⟨inconsistent, -⟩ | ⟨-, stored⟩
    · exact .transfer native charged done
        (by rw [inconsistent]; exact fun passed => by cases passed)
    · cases stored

theorem stoppedHalfway_of_processExecution (enabled : ledger.executorFor tx = some executor)
    (admitted : ∃ executed, ledger.execute host encounter executor tx = .ok executed)
    (failed : processExecution host encounter executor tx ledger = .error fault after) :
    StoppedHalfway host encounter tx ledger := by
  obtain ⟨⟨executed, execution⟩, ran⟩ := admitted
  rw [processExecution, get_bind, ofExcept_bind_eq_error] at failed
  rcases failed with ⟨refused, -⟩ | ⟨again, once, failed⟩
  · cases ran.symm.trans refused
  · cases ran.symm.trans once
    dsimp only at failed
    rw [set_bind, ofExcept_bind_eq_error] at failed
    rcases failed with ⟨unpaid, -⟩ | ⟨charged, -, stored⟩
    · exact .execution executor enabled executed execution ran
        (fun charged => by rw [unpaid]; exact fun paid => by cases paid)
    · cases stored

theorem refused_or_halfway_of_processTransaction
    (failed : processTransaction host encounter tx ledger = .error fault after) :
    ledger.startTransaction host encounter tx ≠ .ok () ∨
      StoppedHalfway host encounter tx ledger := by
  by_cases started : ledger.startTransaction host encounter tx = .ok ()
  · right
    rw [processTransaction, get_bind, check_bind_eq_error] at failed
    rw [startTransaction, Check.bind_eq_ok] at started
    obtain ⟨passed, started⟩ := started
    rcases failed with ⟨replay, -⟩ | ⟨-, failed⟩
    · cases passed.symm.trans replay
    · cases data : privacyDataOf tx host with
      | some privacyTx =>
        rw [data] at failed
        cases failed
      | none =>
        rw [data] at failed started
        cases enabled : ledger.executorFor tx with
        | some executor =>
          simp only [enabled] at failed started
          apply stoppedHalfway_of_processExecution enabled _ failed
          cases ran : ledger.execute host encounter executor tx with
          | error fault => simp [ran, Except.map] at started
          | ok executed => exact ⟨executed, rfl⟩
        | none =>
          simp only [enabled] at failed started
          apply stoppedHalfway_of_processTransfer enabled _ failed
          cases done : ledger.charge tx with
          | error fault => simp [done, Except.map] at started
          | ok charged => exact ⟨charged, rfl⟩
  · exact .inl started

theorem applyTransaction_of_refused
    (refused : ledger.checkBeforeWrites host encounter block tx ≠ .ok ()) :
    ∃ fault, applyTransaction host encounter block tx ledger = .error fault ledger := by
  rw [checkBeforeWrites, ne_eq, Check.bind_eq_ok, not_and] at refused
  rw [applyTransaction, get_bind]
  cases valid : ledger.validateInBlock host encounter block tx with
  | error fault => exact ⟨fault, rfl⟩
  | ok passed =>
    obtain ⟨fault, stopped⟩ := processTransaction_of_refused (refused valid)
    rw [check_bind_of_ok rfl]
    exact ⟨fault, bind_of_error stopped⟩

theorem refused_or_halfway_of_applyTransaction
    (failed : applyTransaction host encounter block tx ledger = .error fault after) :
    ledger.checkBeforeWrites host encounter block tx ≠ .ok () ∨
      StoppedHalfway host encounter tx ledger := by
  rw [applyTransaction, get_bind, check_bind_eq_error] at failed
  rw [checkBeforeWrites, ne_eq, Check.bind_eq_ok, not_and]
  rcases failed with ⟨invalid, -⟩ | ⟨-, failed⟩
  · left
    intro valid
    cases valid.symm.trans invalid
  · rcases bind_eq_error.mp failed with stopped | ⟨_, processed, -, recorded⟩
    · exact (refused_or_halfway_of_processTransaction stopped).imp_left fun refused _ => refused
    · cases recorded

/-- What the record holds of a block stays in it. -/
def KeepsMarks (block : Block) (before after : Ledger) : Prop :=
  ∀ key, before.spentOutputs.lookup key = some (block.hash, block.header.blockNumber) →
    after.spentOutputs.lookup key = some (block.hash, block.header.blockNumber)

instance : Std.Refl (KeepsMarks block) := ⟨fun _ _ marked => marked⟩

instance : IsTrans Ledger (KeepsMarks block) :=
    ⟨fun _ _ _ first second key marked => second key (first key marked)⟩

def marked (ledger : Ledger) (block : Block) (tx : Transaction) : Ledger :=
  (ledger.recordSpentOutput tx block.hash block.header.blockNumber).recordSponsorSpend tx
    block.header.blockNumber

theorem lookup_marked {ledger : Ledger} {key : Address × U64} :
    (ledger.marked block tx).spentOutputs.lookup key =
      if key = (tx.from, tx.nonce) then some (block.hash, block.header.blockNumber)
      else ledger.spentOutputs.lookup key := by
  have spent : (ledger.marked block tx).spentOutputs =
      ledger.spentOutputs.insert (tx.from, tx.nonce) (block.hash, block.header.blockNumber) := by
    unfold marked recordSponsorSpend
    split <;> rfl
  rw [spent, Table.lookup_write]

theorem keepsMarks_applyTransaction (encounter : Encounter) (tx : Transaction) (host : Host)
    (block : Block) : Keeps (KeepsMarks block) (applyTransaction host encounter block tx) := by
  intro ledger
  apply finalState_ofExcept_bind (fun _ found => found)
  intro _ _
  have processed :
      KeepsMarks block ledger (finalState (processTransaction host encounter tx ledger)) := by
    intro key found
    rw [(keeps_processTransaction encounter tx host ledger).spentOutputs]
    exact found
  apply Keeps.from_bind processed
  intro _ ledger key found
  show (ledger.marked block tx).spentOutputs.lookup key = _
  rw [lookup_marked]
  split
  · rfl
  · exact found

theorem keepsMarks_applyTransactions (host : Host) (block : Block) (encounters : Nat → Encounter)
    (transactions : List Transaction) :
    Keeps (KeepsMarks block) (applyTransactions host block encounters transactions) := by
  induction transactions generalizing encounters with
  | nil => exact Keeps.pure ()
  | cons tx rest ih =>
    apply Keeps.bind (keepsMarks_applyTransaction (encounters 0) tx host block)
    intro _
    exact ih _

theorem keepsMarks_pruneSpentOutputs {ledger : Ledger} :
    KeepsMarks block ledger (ledger.pruneSpentOutputs block.header.blockNumber) := by
  intro key found
  unfold pruneSpentOutputs
  split
  · exact found
  · next deep =>
    have recent : block.header.blockNumber - finalityDepth < block.header.blockNumber := by
      simp only [finalityDepth] at deep ⊢
      bv_omega
    rw [Table.lookup_retain, found]
    simp [recent]

/-- A transaction that went through is in the record when its block fails later. -/
theorem marked_of_first
    (first : applyTransaction host (encounters 0) block tx ledger = .ok () middle) :
    (finalState (applyTransactions host block encounters (tx :: rest) ledger)).spentOutputs.lookup
      (tx.from, tx.nonce) = some (block.hash, block.header.blockNumber) := by
  obtain ⟨-, processed, -, rfl⟩ := applyTransaction_eq_ok.mp first
  rw [applyTransactions, bind_of_ok first]
  apply keepsMarks_applyTransactions host block _ rest
  show (processed.marked block tx).spentOutputs.lookup _ = _
  rw [lookup_marked, if_pos rfl]

theorem finalState_of_prePass (refused : ledger.prePass host block ≠ .ok ()) :
    finalState (validateAndProcessTransactions host encounters block ledger) = ledger := by
  rw [validateAndProcessTransactions, get_bind]
  cases passed : ledger.prePass host block with
  | error fault => rfl
  | ok done => exact absurd passed refused

theorem finalState_of_refused (shape : block.transactions = tx :: rest)
    (refused : ledger.checkBeforeWrites host (encounters 0) block tx ≠ .ok ()) :
    finalState (validateAndProcessTransactions host encounters block ledger) = ledger := by
  by_cases passed : ledger.prePass host block = .ok ()
  · obtain ⟨fault, stopped⟩ := applyTransaction_of_refused refused
    have failed :
        applyTransactions host block encounters (tx :: rest) ledger = .error fault ledger := by
      exact bind_of_error stopped
    rw [validateAndProcessTransactions, get_bind, check_bind_of_ok passed, shape,
      bind_of_error failed]
    rfl
  · exact finalState_of_prePass passed

theorem finalState_of_empty (passed : ledger.prePass host block = .ok ())
    (shape : block.transactions = []) :
    finalState (validateAndProcessTransactions host encounters block ledger) =
      ledger.pruneSpentOutputs block.header.blockNumber := by
  rw [validateAndProcessTransactions, get_bind, check_bind_of_ok passed, shape]
  rfl

theorem keepsMarks_afterwards (passed : ledger.prePass host block = .ok ()) :
    KeepsMarks block
      (finalState (applyTransactions host block encounters block.transactions ledger))
      (finalState (validateAndProcessTransactions host encounters block ledger)) := by
  rw [validateAndProcessTransactions, get_bind, check_bind_of_ok passed]
  cases done : applyTransactions host block encounters block.transactions ledger with
  | error fault stopped =>
    rw [bind_of_error done]
    exact fun _ found => found
  | ok value applied =>
    rw [bind_of_ok done]
    exact keepsMarks_pruneSpentOutputs

end Ledger

inductive Entrance where
  | addBlock (preVerified : Bool)
  | sync

namespace Entrance

variable (entrance : Entrance) (host : Host) (conditions : Conditions) (block : Block)
  (chain : Blockchain)

def checks : Except ChainFault Unit :=
  match entrance with
  | addBlock preVerified => chain.checkBlock host conditions preVerified block
  | sync => chain.checkReceived host conditions.now block

/-- The call returns an error and leaves the chain as `after`. -/
def Fails (reason : BlockchainError) (after : Blockchain) : Prop :=
  match entrance with
  | addBlock preVerified =>
    addBlockImpl host conditions preVerified block chain = .error (.error reason) after
  | sync => addBlockForSync host conditions block chain = .error (.error reason) after

/-- The call is stopped ahead of its first write: by the checks of the block, by the stateless pass
over its transactions, or by what comes ahead of the first write for its first transaction. A
block without transactions is stopped by the DAG alone, and then no spent output may be due for
pruning. -/
inductive StoppedEarly : Prop where
  | checks (refused : entrance.checks host conditions block chain ≠ .ok ())
  | prePass (refused : chain.toLedger.prePass host block ≠ .ok ())
  | first (tx : Transaction) (rest : List Transaction) (shape : block.transactions = tx :: rest)
      (refused : chain.toLedger.checkBeforeWrites host (conditions.encounters 0) block tx ≠ .ok ())
  | empty (shape : block.transactions = [])
      (recent : (chain.toLedger.pruneSpentOutputs block.header.blockNumber).spentOutputs =
        chain.spentOutputs)

/-- No output is recorded as spent in the block. -/
def Unattempted : Prop :=
  ∀ key, chain.spentOutputs.lookup key ≠ some (block.hash, block.header.blockNumber)

/-- The first transaction of the block fails between its writes. -/
def FirstHalfway : Prop :=
  ∃ tx rest, block.transactions = tx :: rest ∧
    StoppedHalfway host (conditions.encounters 0) tx chain.toLedger

variable {entrance host conditions block chain} {reason : BlockchainError}

section

variable (failed : entrance.Fails host conditions block chain reason after)

include failed

theorem fails_cases :
    (entrance.checks host conditions block chain = .error (.error reason) ∧ after = chain) ∨
      (entrance.checks host conditions block chain = .ok () ∧ after.toLedger = finalState
          (validateAndProcessTransactions host conditions.encounters block chain.toLedger)) := by
  cases entrance with
  | addBlock preVerified =>
    rcases addBlockImpl_eq_error.mp failed with ⟨refused, same⟩ | ⟨passed, stopped⟩
    · exact .inl ⟨refused, same⟩
    · exact .inr ⟨passed, stopped.toLedger⟩
  | sync =>
    rcases addBlockForSync_eq_error.mp failed with ⟨refused, same⟩ | ⟨passed, -, stopped⟩
    · exact .inl ⟨refused, same⟩
    · exact .inr ⟨passed, stopped.toLedger⟩

theorem sameState_of_stoppedEarly (early : entrance.StoppedEarly host conditions block chain) :
    SameState chain.toLedger after.toLedger := by
  rcases fails_cases failed with ⟨-, rfl⟩ | ⟨passed, left⟩
  · exact SameState.refl _
  · rw [left]
    cases early with
    | checks refused => exact absurd passed refused
    | prePass refused =>
      rw [finalState_of_prePass refused]
      exact SameState.refl _
    | first tx rest shape refused =>
      rw [finalState_of_refused shape refused]
      exact SameState.refl _
    | empty shape recent =>
      by_cases stateless : chain.toLedger.prePass host block = .ok ()
      · rw [finalState_of_empty stateless shape]
        exact sameState_pruneSpentOutputs recent
      · rw [finalState_of_prePass stateless]
        exact SameState.refl _

theorem stoppedEarly_of_sameState
    (unattempted : Unattempted block chain) (whole : ¬FirstHalfway host conditions block chain)
    (same : SameState chain.toLedger after.toLedger) :
    entrance.StoppedEarly host conditions block chain := by
  rcases fails_cases failed with ⟨refused, -⟩ | ⟨-, left⟩
  · exact .checks (by rw [refused]; exact fun passed => by cases passed)
  · by_cases stateless : chain.toLedger.prePass host block = .ok ()
    · cases shape : block.transactions with
      | nil =>
        rw [left, finalState_of_empty stateless shape] at same
        exact .empty shape same.spentOutputs
      | cons tx rest =>
        by_cases admitted :
          chain.toLedger.checkBeforeWrites host (conditions.encounters 0) block tx = .ok ()
        · exfalso
          cases first : applyTransaction host (conditions.encounters 0) block tx chain.toLedger with
          | error fault stopped =>
            rcases refused_or_halfway_of_applyTransaction first with refused | halfway
            · exact refused admitted
            · exact whole ⟨tx, rest, shape, halfway⟩
          | ok value middle =>
            -- The record of the first transaction outlives the failure and was not there before.
            have outlived := keepsMarks_afterwards stateless (tx.from, tx.nonce)
              (by rw [shape]; exact marked_of_first first)
            rw [← left, same.spentOutputs] at outlived
            exact unattempted _ outlived
        · exact .first tx rest shape admitted
    · exact .prePass stateless

end

/-- A failed call leaves everything as it was if it is stopped early, and only then, as long as the
block is new to the record of spent outputs and its first transaction does not fail between its
writes. -/
theorem sameState_of_failed_call
    (failed : entrance.Fails host conditions block chain reason after) :
    (entrance.StoppedEarly host conditions block chain → SameState chain.toLedger after.toLedger) ∧
      (Unattempted block chain → ¬FirstHalfway host conditions block chain →
        SameState chain.toLedger after.toLedger →
          entrance.StoppedEarly host conditions block chain) :=
  ⟨sameState_of_stoppedEarly failed, stoppedEarly_of_sameState failed⟩

end Entrance

namespace Blockchain

/-- The funded sender and the genesis block. -/
def openedChain : Blockchain :=
  finalState (addBlock Host.sample (Conditions.uncontended 1600000020) genesisBlock
    { new with toLedger := funded })

/-- A transfer of the funded sender with a nonce that is too high. -/
def gapTransfer : Transaction :=
  (Transaction.new Crypto.sample Transaction.sampleSender 5 1000 21000 7).signSample

theorem fails_of_failure
    (came : failure (addBlock host conditions block chain) = some (.error reason)) :
    (Entrance.addBlock false).Fails host conditions block chain reason
      (finalState (addBlock host conditions block chain)) :=
  eq_error_of_failure came

theorem gapTransfer_refused :
    ∃ reason after, (Entrance.addBlock false).Fails Host.sample (Conditions.uncontended 1600000020)
        (childBlock 2 [gapTransfer]) openedChain reason after ∧
      SameState openedChain.toLedger after.toLedger := by
  have failed := fails_of_failure
    (show failure
      (addBlock Host.sample (Conditions.uncontended 1600000020) (childBlock 2 [gapTransfer])
        openedChain) = some (.error (.invalidTransaction "Invalid nonce: expected 0, got 7")) by
        decide +kernel)
  refine ⟨_, _, failed, (Entrance.sameState_of_failed_call failed).1 ?_⟩
  exact .first gapTransfer [] rfl (by decide +kernel)

theorem paidTransfer_outlives_rejected_block :
    ∃ reason after, (Entrance.addBlock false).Fails Host.sample (Conditions.uncontended 1600000020)
        (childBlock 2 [paidTransfer, gapTransfer]) openedChain reason after ∧
      ¬SameState openedChain.toLedger after.toLedger := by
  have failed := fails_of_failure
    (show failure (addBlock Host.sample (Conditions.uncontended 1600000020)
      (childBlock 2 [paidTransfer, gapTransfer]) openedChain) =
        some (.error (.invalidTransaction "Invalid nonce: expected 1, got 7")) by decide +kernel)
  refine ⟨_, _, failed, fun same => ?_⟩
  have sender := same.balances Transaction.sampleSender
  revert sender
  decide +kernel

end Blockchain

end IronDag
