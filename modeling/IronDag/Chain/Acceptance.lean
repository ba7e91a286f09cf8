import IronDag.Chain.Frame

namespace IronDag

open Fallible

theorem onLedger_eq_ok {value : α} : onLedger action chain = .ok value after ↔
      ∃ ledger, action chain.toLedger = .ok value ledger ∧ after =
        { chain with toLedger := ledger } := by
  unfold onLedger
  cases action chain.toLedger with
  | ok result ledger => simp [eq_comm]
  | error reason ledger => simp

theorem onLedger_eq_error {action : LedgerM α} : onLedger action chain = .error fault after ↔
      ∃ ledger, action chain.toLedger = .error fault ledger ∧ after =
        { chain with toLedger := ledger } := by
  unfold onLedger
  cases action chain.toLedger with
  | ok result ledger => simp
  | error reason ledger => simp [eq_comm]

namespace Blockchain

variable {conditions : Conditions}

/-- A call that passed the checks of its block is stopped: among the transactions, or by the DAG
once all of them are processed. -/
def Unfinished (host : Host) (conditions : Conditions) (block : Block) (chain : Blockchain)
    (fault : ChainFault) (after : Blockchain) : Prop :=
  (∃ ledger, Ledger.validateAndProcessTransactions host conditions.encounters block chain.toLedger =
      .error fault ledger ∧ after = { chain with toLedger := ledger }) ∨
    ∃ ledger reason left,
      Ledger.validateAndProcessTransactions host conditions.encounters block chain.toLedger = .ok
        () ledger ∧ chain.dagFault conditions = some (reason, left) ∧ fault = .error reason ∧
        after = { chain with toLedger := ledger, ghostdag := some left }

theorem checkDag_bind_eq_ok {value : α} : (checkDag conditions >>= next) chain = .ok value after ↔
      chain.dagFault conditions = none ∧ next () chain = .ok value after := by
  rw [checkDag, bind_assoc, get_bind]
  cases chain.dagFault conditions with
  | none | some failure => simp

theorem checkDag_bind_eq_error {next : Unit → ChainM α} :
    (checkDag conditions >>= next) chain = .error fault after ↔
      (∃ reason left, chain.dagFault conditions = some (reason, left) ∧ fault = .error reason ∧
        after = { chain with ghostdag := some left }) ∨
      (chain.dagFault conditions = none ∧ next () chain = .error fault after) := by
  rw [checkDag, bind_assoc, get_bind]
  cases chain.dagFault conditions with
  | none => simp
  | some failure =>
    obtain ⟨reason, left⟩ := failure
    simp [eq_comm]

theorem addBlockImpl_eq_ok : addBlockImpl host conditions preVerified block chain = .ok () after ↔
    chain.checkBlock host conditions preVerified block = .ok () ∧ chain.dagFault conditions = none ∧
      ∃ ledger, Ledger.validateAndProcessTransactions host conditions.encounters block
        chain.toLedger = .ok () ledger ∧
        after = ({ chain with toLedger := ledger }.commitBlock conditions block).finishBlock
          host.crypto conditions block := by
  rw [addBlockImpl, get_bind, check_bind_eq_ok, bind_eq_ok]
  simp only [onLedger_eq_ok, checkDag_bind_eq_ok, modify_run, EStateM.Result.ok.injEq, true_and]
  constructor
  · rintro ⟨checked, _, _, ⟨ledger, processed, rfl⟩, inserted, rfl⟩
    exact ⟨checked, inserted, ledger, processed, rfl⟩
  · rintro ⟨checked, inserted, ledger, processed, rfl⟩
    exact ⟨checked, (), _, ⟨ledger, processed, rfl⟩, inserted, rfl⟩

theorem addBlockImpl_eq_error :
    addBlockImpl host conditions preVerified block chain = .error fault after ↔
    (chain.checkBlock host conditions preVerified block = .error fault ∧ after = chain) ∨
      (chain.checkBlock host conditions preVerified block = .ok () ∧
        Unfinished host conditions block chain fault after) := by
  rw [addBlockImpl, get_bind, check_bind_eq_error, bind_eq_error]
  simp only [onLedger_eq_error, onLedger_eq_ok, checkDag_bind_eq_error, modify_run,
    reduceCtorEq, and_false, or_false, Unfinished]
  refine or_congr_right (and_congr_right fun _ => or_congr_right ?_)
  constructor
  · rintro ⟨_, _, ⟨ledger, processed, rfl⟩, reason, left, failed, rfl, rfl⟩
    exact ⟨ledger, reason, left, processed, failed, rfl, rfl⟩
  · rintro ⟨ledger, reason, left, processed, failed, rfl, rfl⟩
    exact ⟨(), _, ⟨ledger, processed, rfl⟩, reason, left, failed, rfl, rfl⟩

theorem addBlockForSync_eq_ok : addBlockForSync host conditions block chain = .ok added after ↔
    chain.checkReceived host conditions.now block = .ok () ∧
      ((block.hash ∈ chain.blocks.blockHashes ∧ added = false ∧ after = chain) ∨
        (block.hash ∉ chain.blocks.blockHashes ∧ added = true ∧ chain.dagFault conditions = none ∧
          ∃ ledger, Ledger.validateAndProcessTransactions host conditions.encounters block
            chain.toLedger =
            .ok () ledger ∧ after =
              { chain with toLedger := ledger }.commitBlock conditions block)) := by
  rw [addBlockForSync, get_bind, check_bind_eq_ok]
  refine and_congr_right fun _ => ?_
  by_cases known : block.hash ∈ chain.blocks.blockHashes
  · simp [known, eq_comm]
  · rw [if_neg known, bind_eq_ok]
    simp only [known, not_false_eq_true, true_and, false_and, false_or, onLedger_eq_ok,
      checkDag_bind_eq_ok, modify_bind, pure_run, EStateM.Result.ok.injEq]
    constructor
    · rintro ⟨_, _, ⟨ledger, processed, rfl⟩, inserted, rfl, rfl⟩
      exact ⟨rfl, inserted, ledger, processed, rfl⟩
    · rintro ⟨rfl, inserted, ledger, processed, rfl⟩
      exact ⟨(), _, ⟨ledger, processed, rfl⟩, inserted, rfl, rfl⟩

theorem addBlockForSync_eq_error :
    addBlockForSync host conditions block chain = .error fault after ↔
    (chain.checkReceived host conditions.now block = .error fault ∧ after = chain) ∨
      (chain.checkReceived host conditions.now block = .ok () ∧
        block.hash ∉ chain.blocks.blockHashes ∧
        Unfinished host conditions block chain fault after) := by
  rw [addBlockForSync, get_bind, check_bind_eq_error]
  refine or_congr_right (and_congr_right fun _ => ?_)
  by_cases known : block.hash ∈ chain.blocks.blockHashes
  · simp [known]
  · rw [if_neg known, bind_eq_error]
    simp only [known, not_false_eq_true, true_and, onLedger_eq_error, onLedger_eq_ok,
      checkDag_bind_eq_error, modify_bind, pure_run, reduceCtorEq, and_false, or_false, Unfinished]
    refine or_congr_right ?_
    constructor
    · rintro ⟨_, _, ⟨ledger, processed, rfl⟩, reason, left, failed, rfl, rfl⟩
      exact ⟨ledger, reason, left, processed, failed, rfl, rfl⟩
    · rintro ⟨ledger, reason, left, processed, failed, rfl, rfl⟩
      exact ⟨(), _, ⟨ledger, processed, rfl⟩, reason, left, failed, rfl, rfl⟩

theorem Unfinished.toLedger (stopped : Unfinished host conditions block chain fault after) :
    after.toLedger = Fallible.finalState
      (Ledger.validateAndProcessTransactions host conditions.encounters block chain.toLedger) := by
  rcases stopped with ⟨ledger, processed, rfl⟩ | ⟨ledger, reason, left, processed, -, -, rfl⟩
  · rw [processed]
    rfl
  · rw [processed]
    rfl

theorem Unfinished.blocks (stopped : Unfinished host conditions block chain fault after) :
    after.blocks = chain.blocks := by
  rw [stopped.toLedger]
  exact (Ledger.keeps_validateAndProcessTransactions host conditions.encounters
    block chain.toLedger).blocks

/-- The parts of the chain that `finishBlock` may write. -/
def OnlyFinished (before after : Blockchain) : Prop :=
  ∃ accounts spentOutputs ghostdag recurringManager governanceScheduler,
    after = { before with accounts, spentOutputs, ghostdag, recurringManager, governanceScheduler }

theorem OnlyFinished.refl (chain : Blockchain) : OnlyFinished chain chain := ⟨_, _, _, _, _, rfl⟩

theorem OnlyFinished.trans (first : OnlyFinished one two) (second : OnlyFinished two three) :
    OnlyFinished one three := by
  obtain ⟨accounts, spent, dag, recurring, governance, rfl⟩ := first
  obtain ⟨accounts, spent, dag, recurring, governance, rfl⟩ := second
  exact ⟨_, _, _, _, _, rfl⟩

theorem onlyFinished_executeRecurring (crypto : Crypto) (chain : Blockchain)
    (recurring : RecurringTransaction) :
    OnlyFinished chain (executeRecurring crypto block chain recurring) := by
  unfold executeRecurring
  dsimp only
  split <;> exact ⟨_, _, _, _, _, rfl⟩

theorem onlyFinished_finishBlock (crypto : Crypto) (chain : Blockchain) :
    OnlyFinished chain (chain.finishBlock crypto conditions block) := by
  have pruned : OnlyFinished chain (chain.prunePeriodically block) := by
    unfold prunePeriodically Ledger.pruneSpentOutputs
    split
    · split <;> exact ⟨_, _, _, _, _, rfl⟩
    · exact OnlyFinished.refl chain
  have governed : OnlyFinished
      ((chain.prunePeriodically block).processRecurringTransactions crypto conditions block)
      (chain.finishBlock crypto conditions block) := ⟨_, _, _, _, _, rfl⟩
  refine (pruned.trans ?_).trans governed
  unfold processRecurringTransactions
  split
  · exact OnlyFinished.refl _
  · exact List.foldlRecOn _ _ (OnlyFinished.refl _) fun _ finished recurring _ =>
      finished.trans (onlyFinished_executeRecurring crypto _ recurring)

theorem totalFeesBurned_addBlockImpl
    (added : addBlockImpl host conditions preVerified block chain = .ok () after) :
    after.totalFeesBurned = chain.totalFeesBurned := by
  obtain ⟨-, -, ledger, -, rfl⟩ := addBlockImpl_eq_ok.mp added
  obtain ⟨accounts, spent, dag, recurring, governance, finished⟩ :=
    @onlyFinished_finishBlock conditions block host.crypto
      ({ chain with toLedger := ledger }.commitBlock conditions block)
  rw [finished]
  rfl

end Blockchain

end IronDag
