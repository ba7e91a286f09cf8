import IronDag.Chain.Trail
import IronDag.Mining.Node

namespace IronDag

open Blockchain Ledger Fallible

/-- The recurring payments that `add_block` makes once the checks of the block are passed. -/
def Blockchain.paymentsOf (chain : Blockchain) (host : Host) (conditions : Conditions)
    (block : Block) : List (Blockchain × RecurringTransaction) :=
  match chain.dagFault conditions,
    validateAndProcessTransactions host conditions.encounters block chain.toLedger with
  | none, .ok _ ledger =>
    (({ chain with toLedger := ledger }.commitBlock conditions block).prunePeriodically
      block).duePayments host.crypto conditions block
  | _, _ => []

namespace Step

variable (host : Host) (step : Step) (chain : Blockchain)

/-- Whether the call gets to the transactions of its block. -/
def enters : Bool :=
  match step.call with
  | .addBlock block => (chain.checkBlock host step.conditions false block).isOk
  | .submit _ submission =>
    decide (submission.block.header.blockNumber = submission.blockNumber) &&
      !decide (chain.latestBlockNumber + maxBlockNumberGap < submission.blockNumber) &&
      submission.powHashValid host.crypto &&
        (chain.checkBlock host step.conditions true submission.block).isOk
  | .sync block =>
    (chain.checkReceived host step.conditions.now block).isOk && decide
      (block.hash ∉ chain.blocks.blockHashes)

/-- The turns of the transactions that the call gets to. -/
def turns : List Turn :=
  if step.enters host chain then
    turnsOf host step.conditions.encounters step.call.block chain.toLedger
  else
    []

/-- The recurring payments that the call makes. A synchronised block makes none. -/
def payments : List (Blockchain × RecurringTransaction) :=
  match step.call with
  | .sync _ => []
  | _ =>
    if step.enters host chain then chain.paymentsOf host step.conditions step.call.block else []

variable {host step chain}

theorem isOk_eq_true {check : Except ChainFault Unit} : check.isOk = true ↔ check = .ok () := by
  cases check <;> simp [Except.toBool]

theorem exists_error_of_not_isOk {check : Except ChainFault Unit} (failed : ¬check.isOk = true) :
    ∃ fault, check = .error fault := by
  cases check with
  | ok passed => exact absurd rfl failed
  | error fault => exact ⟨fault, rfl⟩

/-- A call that does not get to the transactions leaves the chain as it is. -/
theorem apply_of_not_enters (outside : ¬step.enters host chain = true) :
    step.apply host chain = chain := by
  obtain ⟨call, conditions⟩ := step
  cases call with
  | addBlock block =>
    obtain ⟨fault, failed⟩ := exists_error_of_not_isOk outside
    show finalState (addBlockImpl host conditions false block chain) = chain
    rw [addBlockImpl_eq_error.mpr (.inl ⟨failed, rfl⟩), finalState]
  | submit miner submission =>
    show (chain.processSubmission host conditions miner submission).2 = chain
    unfold processSubmission
    split
    · rfl
    · next number =>
      split
      · rfl
      · next near =>
        split
        · rfl
        · next valid =>
          have rejected : ¬(chain.checkBlock host conditions true submission.block).isOk =
              true := fun checked =>
            outside (by simp_all [enters])
          obtain ⟨fault, failed⟩ := exists_error_of_not_isOk rejected
          rw [addBlockPreVerified, addBlockImpl_eq_error.mpr (.inl ⟨failed, rfl⟩)]
  | sync block =>
    show finalState (addBlockForSync host conditions block chain) = chain
    by_cases checked : (chain.checkReceived host conditions.now block).isOk = true
    · have known : block.hash ∈ chain.blocks.blockHashes := by
        by_contra fresh
        exact outside (by simp [enters, checked, fresh])
      rw [addBlockForSync_eq_ok.mpr ⟨isOk_eq_true.mp checked, .inl ⟨known, rfl, rfl⟩⟩, finalState]
    · obtain ⟨fault, failed⟩ := exists_error_of_not_isOk checked
      rw [addBlockForSync_eq_error.mpr (.inl ⟨failed, rfl⟩), finalState]

variable (fresh : step.call.block.hash ∉ chain.blocks.blockHashes)
  (accepted : step.ReturnsOk host chain)

include fresh accepted

/-- A call that reports success for a new block has got to its transactions. -/
theorem enters_of_returnsOk : step.enters host chain = true := by
  obtain ⟨call, conditions⟩ := step
  cases call with
  | addBlock block =>
    obtain ⟨after, added⟩ := accepted
    exact isOk_eq_true.mpr (addBlockImpl_eq_ok.mp added).1
  | submit miner submission =>
    obtain ⟨after, committed⟩ := accepted
    obtain ⟨number, near, valid, stored, added, -⟩ := processSubmission_eq_committed.mp committed
    have checked := isOk_eq_true.mpr (addBlockImpl_eq_ok.mp added).1
    simp [enters, number, near, valid, checked]
  | sync block =>
    obtain ⟨added, after, done⟩ := accepted
    have checked := isOk_eq_true.mpr (addBlockForSync_eq_ok.mp done).1
    have new : block.hash ∉ chain.blocks.blockHashes := fresh
    simp [enters, checked, new]

/-- In a new block that is accepted, each transaction has its turn and is executed in it. -/
theorem turns_of_returnsOk : (step.turns host chain).map Turn.tx = step.call.block.transactions ∧
      ∀ turn ∈ step.turns host chain, turn.executed host step.call.block = true := by
  obtain ⟨ledger, processed⟩ := processed_of_returnsOk fresh accepted
  obtain ⟨passed, applied, done, -⟩ := Ledger.validateAndProcessTransactions_eq_ok.mp processed
  rw [turns, if_pos (enters_of_returnsOk fresh accepted), Ledger.turnsOf, passed]
  exact Ledger.reached_of_applyTransactions done

end Step

/-- A relation that can be put together turn by turn and does not look at what else a call does to
the ledger. -/
structure Traced (related : Ledger → List Turn → Ledger → Prop) :
    Prop extends Composes related where
  commit : ∀ (chain : Blockchain) conditions block,
    related chain.toLedger [] (chain.commitBlock conditions block).toLedger
  credit : ∀ (chain : Blockchain) miner submission,
    related chain.toLedger [] (chain.creditMiner miner submission).toLedger

namespace Traced

variable (traced : Traced related) {chain : Blockchain}

include traced

theorem extend (front : related before turns middle)
    (back : related middle [] after) : related before turns after := by
  have joined := traced.append front back
  rwa [List.append_nil] at joined

/-- The payments one after another. -/
theorem payments
    (each : ∀ entry ∈ Run.visited
      (fun recurring chain => executeRecurring crypto block chain recurring) chain
      due, related entry.1.toLedger [] (executeRecurring crypto block entry.1 entry.2).toLedger) :
    related chain.toLedger [] (due.foldl (executeRecurring crypto block) chain).toLedger := by
  induction due generalizing chain with
  | nil => exact traced.refl _
  | cons recurring rest ih =>
    have first := each (chain, recurring) List.mem_cons_self
    exact traced.extend first (ih fun entry later => each entry (List.mem_cons_of_mem _ later))

theorem finishBlock
    (each : ∀ entry ∈ (chain.prunePeriodically block).duePayments crypto conditions block,
      related entry.1.toLedger [] (executeRecurring crypto block entry.1 entry.2).toLedger) :
    related chain.toLedger [] (chain.finishBlock crypto conditions block).toLedger := by
  have pruned : related chain.toLedger [] (chain.prunePeriodically block).toLedger := by
    unfold prunePeriodically
    split
    · exact traced.prune _ _
    · exact traced.refl _
  refine traced.extend pruned ?_
  unfold duePayments at each
  rw [Blockchain.finishBlock, processRecurringTransactions]
  cases managed : (chain.prunePeriodically block).recurringManager with
  | none => exact traced.refl _
  | some manager =>
    rw [managed] at each
    exact traced.payments each

theorem addBlockImpl (checked : chain.checkBlock host conditions preVerified block = .ok ())
    (turns : ∀ turn ∈ turnsOf host conditions.encounters block chain.toLedger,
      related turn.ledger [turn] (turn.outcome host block))
    (each : ∀ entry ∈ chain.paymentsOf host conditions block,
      related entry.1.toLedger [] (executeRecurring host.crypto block entry.1 entry.2).toLedger) :
    related chain.toLedger (turnsOf host conditions.encounters block chain.toLedger)
      (finalState (addBlockImpl host conditions preVerified block chain)).toLedger := by
  have processed := traced.validateAndProcessTransactions turns
  cases adding : Blockchain.addBlockImpl host conditions preVerified block chain with
  | error fault after =>
    rcases addBlockImpl_eq_error.mp adding with ⟨failed, -⟩ | ⟨-, stopped⟩
    · rw [checked] at failed
      cases failed
    · rw [← stopped.toLedger] at processed
      exact processed
  | ok value after =>
    obtain ⟨-, inserted, ledger, done, rfl⟩ := addBlockImpl_eq_ok.mp adding
    rw [done] at processed
    unfold paymentsOf at each
    rw [inserted, done] at each
    have committed := traced.commit { chain with toLedger := ledger } conditions block
    exact traced.extend (traced.extend processed committed) (traced.finishBlock each)

theorem addBlockForSync (checked : chain.checkReceived host conditions.now block = .ok ())
    (fresh : block.hash ∉ chain.blocks.blockHashes)
    (turns : ∀ turn ∈ turnsOf host conditions.encounters block chain.toLedger,
      related turn.ledger [turn] (turn.outcome host block)) :
    related chain.toLedger (turnsOf host conditions.encounters block chain.toLedger)
      (finalState (addBlockForSync host conditions block chain)).toLedger := by
  have processed := traced.validateAndProcessTransactions turns
  cases adding : Blockchain.addBlockForSync host conditions block chain with
  | error fault after =>
    rcases addBlockForSync_eq_error.mp adding with ⟨failed, -⟩ | ⟨-, -, stopped⟩
    · rw [checked] at failed
      cases failed
    · rw [← stopped.toLedger] at processed
      exact processed
  | ok added after =>
    obtain ⟨-, ⟨known, -, -⟩ | ⟨-, -, -, ledger, done, rfl⟩⟩ := addBlockForSync_eq_ok.mp adding
    · exact absurd known fresh
    · rw [done] at processed
      exact traced.extend processed
        (traced.commit { chain with toLedger := ledger } conditions block)

/-- A submission that gets to `add_block`, with the reward after it. -/
theorem processSubmission (number : submission.block.header.blockNumber = submission.blockNumber)
    (near : ¬chain.latestBlockNumber + maxBlockNumberGap < submission.blockNumber)
    (valid : submission.powHashValid host.crypto = true)
    (added : related chain.toLedger turns
      (finalState (Blockchain.addBlockImpl host conditions true submission.block chain)).toLedger) :
    related chain.toLedger turns
      (chain.processSubmission host conditions miner submission).2.toLedger := by
  unfold Blockchain.processSubmission addBlockPreVerified
  rw [if_neg (not_not_intro number), if_neg near, valid]
  cases adding : Blockchain.addBlockImpl host conditions true submission.block chain with
  | ok value after =>
    rw [adding] at added
    exact traced.extend added (traced.credit after miner submission)
  | error fault left =>
    rw [adding] at added
    exact added

/-- What holds across each turn and each payment of a call holds across the call. -/
theorem apply {step : Step} (turns : ∀ turn ∈ step.turns host chain,
      related turn.ledger [turn] (turn.outcome host step.call.block))
    (each : ∀ entry ∈ step.payments host chain,
      related entry.1.toLedger []
        (executeRecurring host.crypto step.call.block entry.1 entry.2).toLedger) :
    related chain.toLedger (step.turns host chain) (step.apply host chain).toLedger := by
  obtain ⟨call, conditions⟩ := step
  unfold Step.turns at turns ⊢
  unfold Step.payments at each
  by_cases entered : Step.enters host ⟨call, conditions⟩ chain = true
  · rw [if_pos entered] at turns ⊢
    cases call with
    | addBlock block =>
      simp only [if_pos entered] at each
      exact traced.addBlockImpl (Step.isOk_eq_true.mp entered) turns each
    | submit miner submission =>
      simp only [if_pos entered] at each
      simp only [Step.enters, Bool.and_eq_true, Bool.not_eq_true', decide_eq_true_eq,
        decide_eq_false_iff_not] at entered
      obtain ⟨⟨⟨number, near⟩, valid⟩, checked⟩ := entered
      exact traced.processSubmission number near valid
        (traced.addBlockImpl (Step.isOk_eq_true.mp checked) turns each)
    | sync block =>
      simp only [Step.enters, Bool.and_eq_true, decide_eq_true_eq] at entered
      exact traced.addBlockForSync (Step.isOk_eq_true.mp entered.1) entered.2 turns
  · rw [if_neg entered, Step.apply_of_not_enters entered]
    exact traced.refl _

end Traced

end IronDag
