import IronDag.Chain.Conservation
import IronDag.Chain.Modes
import IronDag.Chain.Resync
import IronDag.Mining.Lockstep

namespace IronDag

open Blockchain Ledger Transaction Run Host

namespace Blockchain

def setNonce (chain : Blockchain) (address : Address) (nonce : U64) : Blockchain :=
  { chain with toLedger := chain.toLedger.setNonce address nonce }

/-- The nodes return the same balance and the same nonce for every address. -/
def SameAccounts (left right : Blockchain) : Prop :=
  ∀ address, left.getBalance address = right.getBalance address ∧
    left.getNonce address = right.getNonce address

/-- The nodes have the same accounts, wherever they keep them, and what their calls depend on is the
same. -/
structure Agree (left right : Blockchain) : Prop where
  ledger : Ledger.Agree left.toLedger right.toLedger
  ghostdag : left.ghostdag.isSome = right.ghostdag.isSome
  recurringManager : left.recurringManager = right.recurringManager
  zkVerifyingKey : left.zkVerifyingKey = right.zkVerifyingKey
  zkEnforce : left.zkEnforce = right.zkEnforce

theorem Agree.sameAccounts (agree : left.Agree right) : SameAccounts left right :=
  fun address => ⟨agree.ledger.balances address, agree.ledger.nonces address⟩

/-- The pool does not pay: the nullifier is spent, a proof is asked for, or the account of the pool
is short. -/
def RefusesWithdrawal (chain : Blockchain) (nullifier : Hash) : Prop :=
  nullifier ∈ chain.privacyPool.spentNullifiers ∨ chain.privacyPool.requireProof = true ∨
    chain.getBalance privacyPoolAddress < chain.privacyPool.denomination

end Blockchain

/-- A call whose transactions are plain transfers or privacy transactions, and after which no
recurring payment is due. -/
structure Step.WritesThrough (host : Host) (step : Step) (chain : Blockchain) : Prop where
  native : ∀ tx ∈ step.call.block.transactions, Native host chain.toLedger tx
  idle : (∀ block, step.call ≠ .sync block) → ∀ manager, chain.recurringManager = some manager →
    manager.Idle step.call.block.header.timestamp

/-- What writes accounts. -/
inductive AccountOperation where
  | setBalance (address : Address) (balance : U128)
  | setNonce (address : Address) (nonce : U64)
  | call (step : Step)
  | poolWithdraw (nullifier : Hash) (recipient : Address) (proof : Option Bytes)

namespace AccountOperation

def apply (host : Host) (operation : AccountOperation) (chain : Blockchain) : Blockchain :=
  match operation with
  | setBalance address balance => chain.setBalance address balance
  | setNonce address nonce => chain.setNonce address nonce
  | call step => step.apply host chain
  | poolWithdraw nullifier recipient proof =>
    Fallible.finalState (Blockchain.poolWithdraw nullifier recipient proof chain)

/-- The operation of two nodes at once. -/
def applyBoth (host : Host) (operation : AccountOperation) (nodes : Blockchain × Blockchain) :
    Blockchain × Blockchain :=
  (operation.apply host nodes.1, operation.apply host nodes.2)

/-- The operation writes no account to the cache alone. -/
def WritesThrough (host : Host) (chain : Blockchain) : AccountOperation → Prop
  | setBalance _ _ => True
  | setNonce _ _ => True
  | call step => step.WritesThrough host chain
  | poolWithdraw nullifier _ _ => chain.RefusesWithdrawal nullifier

end AccountOperation

namespace Blockchain

variable {host : Host} {left chain : Blockchain}

theorem Agree.ofLedger (agree : left.Agree right) (ledger : Ledger.Agree one two) :
    Agree { left with toLedger := one } { right with toLedger := two } :=
  ⟨ledger, agree.ghostdag, agree.recurringManager, agree.zkVerifyingKey, agree.zkEnforce⟩

theorem Agree.commitBlock (agree : left.Agree right) (conditions : Conditions) (block : Block) :
    Agree (left.commitBlock conditions block) (right.commitBlock conditions block) := by
  have neutral : Ledger.Neutral fun ledger => { ledger with
      blocks := pushBlock ledger.blocks block
      cachedLatestBlockNumber :=
        if ledger.cachedLatestBlockNumber < block.header.blockNumber then block.header.blockNumber
        else ledger.cachedLatestBlockNumber
      recentTxHashes := rememberHashes ledger.recentTxHashes block.transactionHashes } :=
    ⟨fun _ => rfl, fun _ => rfl, fun _ => rfl, fun _ => rfl, fun _ => rfl⟩
  refine ⟨⟨fun address => ?_, fun address => ?_, ?_, ?_⟩, ?_, agree.recurringManager,
    agree.zkVerifyingKey, agree.zkEnforce⟩
  · rw [getBalance_commitBlock, getBalance_commitBlock, agree.ledger.balances]
  · rw [getNonce_commitBlock, getNonce_commitBlock, agree.ledger.nonces]
  · exact (neutral.agree agree.ledger).shared
  · simpa [Blockchain.commitBlock] using agree.ledger.executor
  · simpa [Blockchain.commitBlock] using agree.ghostdag

theorem Agree.prunePeriodically (agree : left.Agree right) (block : Block) :
    Agree (left.prunePeriodically block) (right.prunePeriodically block) := by
  unfold Blockchain.prunePeriodically
  split
  · refine ⟨(Ledger.neutral_pruneSpentOutputs _).agree agree.ledger, ?_, agree.recurringManager,
      agree.zkVerifyingKey, agree.zkEnforce⟩
    simpa using agree.ghostdag
  · exact agree

theorem processRecurring_of_idle
    (idle : ∀ manager, chain.recurringManager = some manager →
      manager.Idle block.header.timestamp) :
    chain.processRecurringTransactions host.crypto conditions block = chain := by
  unfold processRecurringTransactions
  cases managed : chain.recurringManager with
  | none => rfl
  | some manager =>
    dsimp only
    rw [RecurringTransactionManager.getReadyToExecute_eq_nil manager (idle manager managed)]
    rfl

theorem recurringManager_prunePeriodically {chain : Blockchain} {block : Block} :
    (chain.prunePeriodically block).recurringManager = chain.recurringManager := by
  unfold Blockchain.prunePeriodically
  split <;> rfl

theorem lockstep_agree (host : Host) :
    Lockstep host Blockchain.Agree (Step.WritesThrough host) where
  blocks agree := agree.ledger.same blocks fun _ => rfl
  latest agree := agree.ledger.same cachedLatestBlockNumber fun _ => rfl
  zkVerifyingKey agree := agree.zkVerifyingKey
  zkEnforce agree := agree.zkEnforce
  ghostdag agree := agree.ghostdag
  process := by
    intro left right step through agree
    refine ((simulation_native host left.toLedger).validateAndProcessTransactions
      (fun _ => through.native) ⟨agree.ledger, rfl⟩).mono ?_
    exact fun _ _ states => agree.ofLedger states.1
  stop dag agree :=
    ⟨agree.ledger, rfl, agree.recurringManager, agree.zkVerifyingKey, agree.zkEnforce⟩
  commit conditions block agree := agree.commitBlock conditions block
  finish := by
    intro start left right step own through manager agree
    have pruned := agree.prunePeriodically step.call.block
    have idleLeft : ∀ known, (left.prunePeriodically step.call.block).recurringManager =
        some known → known.Idle step.call.block.header.timestamp := by
      rw [recurringManager_prunePeriodically, manager]
      exact through.idle own
    have idleRight : ∀ known, (right.prunePeriodically step.call.block).recurringManager =
        some known → known.Idle step.call.block.header.timestamp := by
      rw [← pruned.recurringManager]
      exact idleLeft
    rw [finishBlock, finishBlock, processRecurring_of_idle idleLeft,
      processRecurring_of_idle idleRight]
    exact ⟨pruned.ledger, pruned.ghostdag, pruned.recurringManager,
      pruned.zkVerifyingKey, pruned.zkEnforce⟩
  credit := by
    intro left right miner submission agree
    have balance : left.getBalance miner = right.getBalance miner := agree.ledger.balances miner
    refine ⟨?_, agree.ghostdag, agree.recurringManager, agree.zkVerifyingKey, agree.zkEnforce⟩
    show Ledger.Agree
      (left.toLedger.setBalance miner (Word.saturatingAdd (left.getBalance miner) _))
      (right.toLedger.setBalance miner (Word.saturatingAdd (right.getBalance miner) _))
    rw [balance]
    exact agree.ledger.setBalance _ _

/-- The pool after an attempt to withdraw. -/
def attempted (pool : PrivacyPool) (nullifier : Hash) (proof : Option Bytes) : PrivacyPool :=
  match pool.withdraw nullifier proof with
  | .ok (_, spent) => spent
  | .error _ => pool

/-- A refused withdrawal changes the pool at most. -/
theorem poolWithdraw_of_refused (refused : chain.RefusesWithdrawal nullifier) :
    Fallible.finalState (poolWithdraw nullifier recipient proof chain) =
      { chain with privacyPool := attempted chain.privacyPool nullifier proof } := by
  rw [poolWithdraw, Fallible.get_bind, attempted]
  cases outcome : chain.privacyPool.withdraw nullifier proof with
  | error reason => rfl
  | ok paid =>
    have short : chain.getBalance privacyPoolAddress < paid.1 := by
      unfold PrivacyPool.withdraw at outcome
      split at outcome
      · cases outcome
      · next unspent =>
        split at outcome
        · split at outcome <;> cases outcome
        · next unproved =>
          cases outcome
          exact (refused.resolve_left unspent).resolve_left unproved
    have read : Ledger.getBalance { chain with privacyPool := paid.2 }.toLedger privacyPoolAddress <
      paid.1 := short
    dsimp only
    rw [if_pos read]
    rfl

theorem Agree.poolWithdraw (agree : left.Agree right) (refused : left.RefusesWithdrawal nullifier) :
    Agree (Fallible.finalState (poolWithdraw nullifier recipient proof left))
      (Fallible.finalState (poolWithdraw nullifier recipient proof right)) := by
  have pool : left.privacyPool = right.privacyPool := agree.ledger.same privacyPool fun _ => rfl
  have refusedRight : right.RefusesWithdrawal nullifier := by
    unfold RefusesWithdrawal at refused ⊢
    rw [← pool, ← agree.ledger.balances]
    exact refused
  rw [poolWithdraw_of_refused refused, poolWithdraw_of_refused refusedRight, ← pool]
  have neutral : Neutral fun ledger =>
      { ledger with privacyPool := attempted left.privacyPool nullifier proof } :=
    ⟨fun _ => rfl, fun _ => rfl, fun _ => rfl, fun _ => rfl, fun _ => rfl⟩
  exact agree.ofLedger (neutral.agree agree.ledger)

end Blockchain

theorem AccountOperation.agree_apply {operation : AccountOperation}
    (agree : left.Agree right) (through : operation.WritesThrough host left) :
    (operation.apply host left).Agree (operation.apply host right) := by
  cases operation with
  | setBalance address balance => exact agree.ofLedger (agree.ledger.setBalance address balance)
  | setNonce address nonce => exact agree.ofLedger (agree.ledger.setNonce address nonce)
  | call step => exact ((lockstep_agree host).apply through agree).1
  | poolWithdraw nullifier recipient proof => exact agree.poolWithdraw through

/-- Two nodes that agree, whatever their storage modes, return the same balances and nonces after
each operation of a run that writes no account to the cache alone. -/
theorem sameAccounts_of_run {host : Host} {left right : Blockchain}
    {operations : List AccountOperation} (agree : left.Agree right)
    (through : ∀ entry ∈ visited (AccountOperation.applyBoth host) (left, right) operations,
      entry.2.WritesThrough host entry.1.1) :
    ∀ nodes ∈ states (AccountOperation.applyBoth host) (left, right) operations,
      SameAccounts nodes.1 nodes.2 := by
  have kept : ∀ nodes ∈ states (AccountOperation.applyBoth host) (left, right) operations,
      nodes.1.Agree nodes.2 :=
    invariant_states (fun nodes operation agree (through : operation.WritesThrough host nodes.1) =>
      AccountOperation.agree_apply agree through) agree through
  exact fun nodes reached => (kept nodes reached).sameAccounts

namespace Blockchain

def databaseNode : Blockchain :=
  withStorage StateDatabase.empty DagDatabase.empty

def verkleNode : Blockchain :=
  withStorageAndVerkle StateDatabase.empty DagDatabase.empty

theorem agree_new : Agree new databaseNode ∧ Agree new verkleNode := by
  constructor
  · rw [databaseNode, withStorage]
    exact ⟨⟨fun _ => rfl, fun _ => rfl, rfl, rfl⟩, rfl, rfl, rfl, rfl⟩
  · rw [verkleNode, withStorageAndVerkle]
    exact ⟨⟨fun _ => rfl, fun _ => rfl, rfl, rfl⟩, rfl, rfl, rfl, rfl⟩

/-- An account is set up and pays in a block; a withdrawal from the empty pool is refused. -/
def transferOperations : List AccountOperation :=
  [.setBalance sampleSender 100000, .setNonce 7 3,
    .call ⟨.addBlock genesisBlock, Conditions.uncontended 1600000020⟩,
    .call ⟨.addBlock (childBlock 2 [paidTransfer]), Conditions.uncontended 1600000020⟩,
    .poolWithdraw 1 9 none]

/-- What has to be looked at before a block of the sample library. -/
def plainNode (chain : Blockchain) : Bool :=
  chain.walletRegistry.isNone && !chain.evmEnabled &&
    chain.recurringManager.all fun manager => decide (manager.keys = ∅)

theorem writesThrough_of_plainNode (plain : plainNode chain = true) {step : Step} :
    step.WritesThrough sample chain := by
  simp only [plainNode, Bool.and_eq_true, Option.isNone_iff_eq_none, Bool.not_eq_true'] at plain
  obtain ⟨⟨unregistered, disabled⟩, unmanaged⟩ := plain
  constructor
  · intro tx _ _
    refine ⟨?_, fun registry known => ?_⟩
    · simp [executorFor, disabled]
    · rw [unregistered] at known
      cases known
  · intro _ manager managed
    rw [managed, Option.all_some, decide_eq_true_eq] at unmanaged
    exact manager.idle_of_no_keys unmanaged

theorem transferOperations_writeThrough {other : Blockchain} :
    ∀ entry ∈ visited (AccountOperation.applyBoth sample) (new, other) transferOperations,
      entry.2.WritesThrough sample entry.1.1 := by
  intro entry visited
  simp only [transferOperations, visited_cons, visited_nil, List.mem_cons,
    List.not_mem_nil, or_false] at visited
  -- only the first node is looked at
  rcases visited with rfl | rfl | rfl | rfl | rfl
  · trivial
  · trivial
  · apply writesThrough_of_plainNode
    dsimp only [AccountOperation.applyBoth]
    decide +kernel
  · apply writesThrough_of_plainNode
    dsimp only [AccountOperation.applyBoth]
    decide +kernel
  · refine .inr (.inr ?_)
    dsimp only [AccountOperation.applyBoth]
    decide +kernel

theorem transferOperations_sameAccounts :
    (run (AccountOperation.apply sample) databaseNode transferOperations).getBalance 5 = 1000 ∧
      (run (AccountOperation.apply sample) verkleNode transferOperations).getNonce sampleSender =
        1 ∧
      (∀ nodes ∈ states (AccountOperation.applyBoth sample) (new, databaseNode) transferOperations,
        SameAccounts nodes.1 nodes.2) ∧
      ∀ nodes ∈ states (AccountOperation.applyBoth sample) (new, verkleNode) transferOperations,
        SameAccounts nodes.1 nodes.2 :=
  ⟨by decide +kernel, by decide +kernel,
    sameAccounts_of_run agree_new.1 transferOperations_writeThrough,
    sameAccounts_of_run agree_new.2 transferOperations_writeThrough⟩

/-- One coin every day. -/
def dailyPayment : RecurringTransaction where
  recurringTxId := 1
  «from» := sampleSender
  «to» := 5
  value := 1
  schedule := .daily
  startDate := 1500000000
  endDate := none
  nextExecution := 1500000000
  maxExecutions := none
  executionCount := 0
  status := .active
  lastExecution := none
  lastExecutionTxHash := none
  failureCount := 0

def withDailyPayment (chain : Blockchain) : Blockchain :=
  { chain with recurringManager := some ((∅ : RecurringTransactionManager).insert 1 dailyPayment) }

/-- The payer has a balance, and a block comes when the payment is due. -/
def paymentOperations : List AccountOperation :=
  [.setBalance sampleSender 100000, .call
    ⟨.addBlock genesisBlock, Conditions.uncontended 1600000020⟩]

/-- The pool has one coin, and it is withdrawn. -/
def withdrawalOperations : List AccountOperation :=
  [.setBalance privacyPoolAddress 1000000000000000000, .poolWithdraw 1 9 none]

/-- Only the node in memory takes the payment from the payer and the coin from the pool. -/
theorem cached_writes_divide : SameAccounts (withDailyPayment new) (withDailyPayment databaseNode) ∧
      SameAccounts (withDailyPayment new) (withDailyPayment verkleNode) ∧
      (∀ node ∈ [databaseNode, verkleNode],
        (run (AccountOperation.apply sample) (withDailyPayment new) paymentOperations).getBalance
          sampleSender ≠
          (run (AccountOperation.apply sample) (withDailyPayment node) paymentOperations).getBalance
            sampleSender) ∧
      ∀ node ∈ [databaseNode, verkleNode],
        (run (AccountOperation.apply sample) new withdrawalOperations).getBalance
            privacyPoolAddress ≠
          (run (AccountOperation.apply sample) node withdrawalOperations).getBalance
            privacyPoolAddress := by
  refine ⟨agree_new.1.sameAccounts, agree_new.2.sameAccounts, ?_, ?_⟩
  · intro node member
    rcases List.mem_pair.mp member with rfl | rfl <;> decide +kernel
  · intro node member
    rcases List.mem_pair.mp member with rfl | rfl <;> decide +kernel

end Blockchain

end IronDag
