import IronDag.Chain.Effects

namespace IronDag.Ledger

open Fallible (Matches)

/-- Everything but the places where accounts are kept, and the executor. -/
def shared (ledger : Ledger) : Ledger :=
  { ledger with database := none, verkleState := none, accounts := ∅, evmExecutor := none }

structure Agree (left right : Ledger) : Prop where
  balances : ∀ address, left.getBalance address = right.getBalance address
  nonces : ∀ address, left.getNonce address = right.getNonce address
  shared : left.shared = right.shared
  executor : left.evmExecutor.isSome = right.evmExecutor.isSome

namespace Agree

variable (agree : Agree left right) (host : Host) (encounter : Encounter) (block : Block)
  (tx : Transaction)

include agree

theorem same {α : Type} (read : Ledger → α)
    (independent : ∀ ledger : Ledger, read ledger.shared = read ledger) :
    read left = read right := by
  rw [← independent left, agree.shared, independent right]

theorem checkNonce : left.checkNonce encounter tx = right.checkNonce encounter tx := by
  have registry : left.registryIf encounter.nonceReadable =
      right.registryIf encounter.nonceReadable :=
    agree.same (fun ledger => ledger.registryIf encounter.nonceReadable) fun _ => rfl
  have current : left.currentNonce encounter tx = right.currentNonce encounter tx := by
    rw [currentNonce, currentNonce, registry, agree.nonces]
  rw [Ledger.checkNonce, Ledger.checkNonce, current]

theorem checkBalances : left.checkBalances tx = right.checkBalances tx := by
  simp only [Ledger.checkBalances, agree.balances]

theorem checkSpendingLimits :
    left.checkSpendingLimits encounter tx = right.checkSpendingLimits encounter tx :=
  agree.same (fun ledger => ledger.checkSpendingLimits encounter tx) fun _ => rfl

theorem validateTxStatefulOnly :
    left.validateTxStatefulOnly encounter tx currentBlock =
      right.validateTxStatefulOnly encounter tx currentBlock := by
  have policy : left.checkSponsorPolicy tx currentBlock =
      right.checkSponsorPolicy tx currentBlock :=
    agree.same (fun ledger => ledger.checkSponsorPolicy tx currentBlock) fun _ => rfl
  rw [Ledger.validateTxStatefulOnly, Ledger.validateTxStatefulOnly, policy, agree.checkNonce,
    agree.checkSpendingLimits, agree.checkBalances]

theorem validateTransaction :
    left.validateTransaction encounter tx host currentBlock =
      right.validateTransaction encounter tx host currentBlock := by
  have authorised : left.checkAuthorisation encounter tx host currentBlock =
      right.checkAuthorisation encounter tx host currentBlock :=
    agree.same (fun ledger => ledger.checkAuthorisation encounter tx host currentBlock) fun _ => rfl
  have privacy : ∀ privacyTx, left.validatePrivacyTransaction host.proofs privacyTx =
      right.validatePrivacyTransaction host.proofs privacyTx := fun privacyTx =>
    agree.same (fun ledger => ledger.validatePrivacyTransaction host.proofs privacyTx) fun _ => rfl
  have chainId : left.chainId = right.chainId := agree.same Ledger.chainId fun _ => rfl
  have enabled : left.evmEnabled = right.evmEnabled := agree.same Ledger.evmEnabled fun _ => rfl
  simp only [Ledger.validateTransaction, authorised, privacy, chainId, enabled, agree.checkNonce,
    agree.checkSpendingLimits, agree.checkBalances]

theorem validateInBlock : left.validateInBlock host encounter block tx =
    right.validateInBlock host encounter block tx := by
  have spent : left.checkDoubleSpend tx block.hash = right.checkDoubleSpend tx block.hash :=
    agree.same (fun ledger => ledger.checkDoubleSpend tx block.hash) fun _ => rfl
  rw [Ledger.validateInBlock, Ledger.validateInBlock, spent,
    agree.validateTransaction, agree.validateTxStatefulOnly]

theorem prePass : left.prePass host block = right.prePass host block :=
  agree.same (fun ledger => ledger.prePass host block) fun _ => rfl

theorem checkReplay : left.checkReplay tx = right.checkReplay tx :=
  agree.same (fun ledger => ledger.checkReplay tx) fun _ => rfl

theorem charge_cases : (∃ fault, left.charge tx = .error fault ∧ right.charge tx = .error fault) ∨
    ∃ one two, left.charge tx = .ok one ∧ right.charge tx = .ok two := by
  unfold charge
  simp only [agree.balances]
  by_cases covered : tx.value ≤ right.getBalance tx.from
  · cases tx.sponsor with
    | some sponsor =>
      by_cases payable : tx.fee ≤ right.getBalance sponsor <;>
        simp [bind, Except.bind, require, invalidTransaction, covered, payable]
    | none =>
      by_cases payable : tx.fee ≤ right.getBalance tx.from - tx.value <;>
        simp [bind, Except.bind, require, invalidTransaction, covered, payable]
  · simp [bind, Except.bind, require, invalidTransaction, covered]

theorem setBalance (address : Address) (balance : U128) :
    Agree (left.setBalance address balance) (right.setBalance address balance) where
  balances read := by rw [getBalance_setBalance, getBalance_setBalance, agree.balances]
  nonces read := by rw [getNonce_setBalance, getNonce_setBalance, agree.nonces]
  shared := agree.shared
  executor := agree.executor

theorem setNonce (address : Address) (nonce : U64) :
    Agree (left.setNonce address nonce) (right.setNonce address nonce) where
  balances read := by rw [getBalance_setNonce, getBalance_setNonce, agree.balances]
  nonces read := by rw [getNonce_setNonce, getNonce_setNonce, agree.nonces]
  shared := agree.shared
  executor := agree.executor

end Agree

/-- A change of what agreeing ledgers share. -/
structure Neutral (change : Ledger → Ledger) : Prop where
  database : ∀ ledger, (change ledger).database = ledger.database
  verkleState : ∀ ledger, (change ledger).verkleState = ledger.verkleState
  accounts : ∀ ledger, (change ledger).accounts = ledger.accounts
  evmExecutor : ∀ ledger, (change ledger).evmExecutor = ledger.evmExecutor
  shared : ∀ ledger, (change ledger).shared = (change ledger.shared).shared

namespace Neutral

variable (neutral : Neutral change)

include neutral

theorem getBalance (ledger : Ledger) : (change ledger).getBalance = ledger.getBalance := by
  funext address
  simp only [Ledger.getBalance, neutral.database, neutral.verkleState, neutral.accounts]

theorem getNonce (ledger : Ledger) : (change ledger).getNonce = ledger.getNonce := by
  funext address
  simp only [Ledger.getNonce, neutral.database, neutral.verkleState, neutral.accounts]

theorem agree (agree : Agree left right) : Agree (change left) (change right) where
  balances address := by rw [neutral.getBalance, neutral.getBalance, agree.balances]
  nonces address := by rw [neutral.getNonce, neutral.getNonce, agree.nonces]
  shared := by rw [neutral.shared, agree.shared, ← neutral.shared]
  executor := by rw [neutral.evmExecutor, neutral.evmExecutor, agree.executor]

end Neutral

theorem neutral_processPrivacyTransaction (privacyTx : PrivacyTransaction) :
    Neutral fun ledger => ledger.processPrivacyTransaction privacyTx := by
  constructor
  all_goals
    intro ledger
    unfold processPrivacyTransaction
    split <;> rfl

def recordTransaction (block : Block) (tx : Transaction) (ledger : Ledger) : Ledger :=
  (ledger.recordSpentOutput tx block.hash block.header.blockNumber).recordSponsorSpend tx
    block.header.blockNumber

theorem neutral_recordTransaction (block : Block) (tx : Transaction) :
    Neutral (recordTransaction block tx) := by
  constructor
  all_goals
    intro ledger
    unfold recordTransaction recordSponsorSpend
    split <;> rfl

theorem neutral_pruneSpentOutputs (height : U64) :
    Neutral fun ledger => ledger.pruneSpentOutputs height := by
  constructor
  all_goals
    intro ledger
    unfold pruneSpentOutputs
    split <;> rfl

/-- A relation that lets two ledgers process the transactions that fit side by side. -/
structure Simulation (host : Host) (related : Ledger → Ledger → Prop)
    (fits : Encounter → Transaction → Prop) : Prop where
  agree : ∀ {left right}, related left right → Agree left right
  process : ∀ {left right encounter tx}, fits encounter tx → related left right →
    Matches related (processTransaction host encounter tx left)
      (processTransaction host encounter tx right)
  record : ∀ {left right} block tx, related left right →
    related (recordTransaction block tx left) (recordTransaction block tx right)
  prune : ∀ {left right} height, related left right →
    related (left.pruneSpentOutputs height) (right.pruneSpentOutputs height)

namespace Simulation

variable (simulation : Simulation host related fits)

include simulation

theorem applyTransaction (fit : fits encounter tx) (states : related left right) :
    Matches related (applyTransaction host encounter block tx left)
      (applyTransaction host encounter block tx right) := by
  refine Matches.ofExcept_bind states
    ((simulation.agree states).validateInBlock host encounter block tx) ?_
  intro _ _
  refine (simulation.process fit states).bind ?_
  intro _ one two processed
  exact .ok () (simulation.record block tx processed)

theorem applyTransactions
    (fit : ∀ index, ∀ tx ∈ transactions, fits (encounters index) tx) (states : related left right) :
    Matches related (applyTransactions host block encounters transactions left)
      (applyTransactions host block encounters transactions right) := by
  induction transactions generalizing encounters left right with
  | nil => exact .ok () states
  | cons tx rest ih =>
    refine (simulation.applyTransaction (fit 0 tx List.mem_cons_self) states).bind ?_
    intro _ one two applied
    exact ih (fun index later member => fit (index + 1) later (List.mem_cons_of_mem tx member))
      applied

theorem validateAndProcessTransactions
    (fit : ∀ index, ∀ tx ∈ block.transactions, fits (encounters index) tx)
    (states : related left right) :
    Matches related (validateAndProcessTransactions host encounters block left)
      (validateAndProcessTransactions host encounters block right) := by
  refine Matches.ofExcept_bind states ((simulation.agree states).prePass host block) ?_
  intro _ _
  refine (simulation.applyTransactions fit states).bind ?_
  intro _ one two applied
  exact .ok () (simulation.prune block.header.blockNumber applied)

end Simulation

end IronDag.Ledger
