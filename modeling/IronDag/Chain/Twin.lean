import IronDag.Chain.Acceptance
import IronDag.Chain.Agree
import IronDag.Chain.LedgerReplica
import IronDag.Chain.Trail

namespace IronDag.Ledger

open StateDatabase

open Fallible (Matches)

/-- Ledgers that are alike, over databases in some closer relation. -/
structure Twin (related : StateDatabase → StateDatabase → Prop) (left right : Ledger) : Prop extends
    Alike left right where
  stores : Option.Rel related left.database right.database

theorem Alike.twin (alike : Alike left right) :
    Twin StateDatabase.Alike left right := ⟨alike, alike.database⟩

theorem Twin.sameDatabase (twin : Twin Eq left right) : left.database = right.database := by
  have stores := twin.stores
  generalize left.database = one at stores ⊢
  generalize right.database = two at stores ⊢
  cases stores with
  | none => rfl
  | some same => rw [same]

namespace Twin

variable (kept : Kept related) (twin : Twin related left right)

include twin

theorem agree : Agree left right where
  balances := twin.balances
  nonces := twin.nonces
  shared := twin.toAlike.same Ledger.shared fun _ => rfl
  executor := twin.toAlike.same (fun ledger => ledger.evmExecutor.isSome) fun _ => rfl

theorem change (change : Ledger → Ledger)
    (database : ∀ ledger, (change ledger).database = ledger.database)
    (verkle : ∀ ledger, (change ledger).verkleState = ledger.verkleState)
    (accounts : ∀ ledger, (change ledger).accounts = ledger.accounts)
    (others : ∀ ledger, (change ledger).others = (change ledger.others).others) :
    Twin related (change left) (change right) := by
  refine ⟨twin.toAlike.change change database verkle accounts others, ?_⟩
  rw [database, database]
  exact twin.stores

theorem neutral {change : Ledger → Ledger} (neutral : Neutral change) :
    Twin related (change left) (change right) := by
  refine twin.change change neutral.database neutral.verkleState neutral.accounts fun ledger => ?_
  have split : ∀ before : Ledger, before.others =
      { before.shared with evmExecutor := before.evmExecutor } :=
    fun _ => rfl
  rw [split, split (change ledger.others), neutral.evmExecutor, neutral.evmExecutor, neutral.shared,
    neutral.shared ledger.others]
  rfl

theorem answer_cacheAccount {absent : α} {address read : Address}
    (reads : ∀ one two : StateDatabase, one.Alike two → stored one = stored two)
    (before : Alike.answer left field stored absent read =
      Alike.answer right field stored absent read) :
    Alike.answer
      { left with accounts := left.accounts.insert address account } field stored absent read =
      Alike.answer { right with accounts := right.accounts.insert address account } field stored
        absent read := by
  have same : left.database.bind stored = right.database.bind stored := by
    rcases twin.database_cases with ⟨noLeft, noRight⟩ | ⟨one, two, isLeft, isRight, alike⟩
    · rw [noLeft, noRight]
    · rw [isLeft, isRight]
      exact reads one two alike
  have mode := twin.verkle
  unfold Alike.answer at before ⊢
  cases one : left.verkleState with
  | some verkle =>
    cases two : right.verkleState with
    | some other => simpa only [one, two] using before
    | none => simp [one, two] at mode
  | none =>
    have two : right.verkleState = none := twin.toAlike.verkle_none_iff.mp one
    simp only [one, two, same, Table.lookup_write] at before ⊢
    split
    · rfl
    · exact before

theorem cacheAccount (address : Address) (account : AccountState) :
    Twin related { left with accounts := left.accounts.insert address account }
      { right with accounts := right.accounts.insert address account } where
  database := twin.database
  verkle := twin.verkle
  balances read :=
    twin.answer_cacheAccount (fun _ _ same => same.balances read) (twin.balances read)
  nonces read := twin.answer_cacheAccount (fun _ _ same => same.nonces read) (twin.nonces read)
  others := twin.others
  stores := twin.stores

theorem verifyPostTransactionConsistency (tx : Transaction) :
    left.verifyPostTransactionConsistency tx = right.verifyPostTransactionConsistency tx := by
  unfold Ledger.verifyPostTransactionConsistency
  rcases twin.database_cases with ⟨noLeft, noRight⟩ | ⟨one, two, isLeft, isRight, same⟩
  · rw [noLeft, noRight]
  · simp only [isLeft, isRight, same.balances, same.nonces, twin.balances, twin.nonces]

include kept

theorem writeBalance (address : Address) (balance : U128) (nonce : U64) :
    Twin related (left.writeBalance address balance nonce)
      (right.writeBalance address balance nonce) :=
  ⟨twin.toAlike.writeBalance address balance nonce,
    kept.map (blind_putBalance address balance).toAdds twin.stores⟩

theorem setBalance (address : Address) (balance : U128) :
    Twin related (left.setBalance address balance) (right.setBalance address balance) where
  database := kept_alike.map (blind_putBalance address balance).toAdds twin.database
  verkle := by simpa [Ledger.setBalance, Ledger.writeBalance] using twin.verkle
  balances read := by rw [getBalance_setBalance, getBalance_setBalance, twin.balances]
  nonces read := by rw [getNonce_setBalance, getNonce_setBalance, twin.nonces]
  others := twin.others
  stores := kept.map (blind_putBalance address balance).toAdds twin.stores

theorem mapDatabase (adds : Adds write) : Twin related
    { left with database := left.database.map write }
      { right with database := right.database.map write } :=
  ⟨twin.toAlike.mapDatabase adds, kept.map adds twin.stores⟩

theorem charge (doneLeft : left.charge tx = .ok one) (doneRight : right.charge tx = .ok two) :
    Twin related one two := by
  rw [eq_of_charge doneLeft, eq_of_charge doneRight, twin.balances, twin.nonces]
  refine writeBalance kept ?_ _ _ _
  unfold sponsored
  split
  · rw [twin.balances, twin.nonces]
    exact twin.writeBalance kept _ _ _
  · exact twin

theorem creditReceiver (tx : Transaction) :
    Twin related (left.creditReceiver tx) (right.creditReceiver tx) := by
  unfold Ledger.creditReceiver
  split
  · exact twin
  · rw [twin.balances, twin.nonces]
    exact twin.writeBalance kept _ _ _

theorem countNonce (writable : first.registryWritable = second.registryWritable) (tx : Transaction)
    (nonce : U64) :
    Twin related (left.countNonce first tx nonce) (right.countNonce second tx nonce) := by
  have handled : left.walletHandled first tx = right.walletHandled second tx := by
    rw [twin.toAlike.same (fun ledger => ledger.walletHandled first tx) fun _ => rfl]
    unfold walletHandled
    rw [writable]
  unfold Ledger.countNonce
  rw [handled]
  split
  · exact twin.change (fun ledger => { ledger with
      walletRegistry := ledger.walletRegistry.map fun registry =>
        registry.recordTransaction tx.from tx.value })
      (fun _ => rfl) (fun _ => rfl) (fun _ => rfl) fun _ => rfl
  · exact ⟨twin.toAlike.writeNonce _ _, kept.map blind_putNonce.toAdds twin.stores⟩

theorem settle (writable : first.registryWritable = second.registryWritable) (tx : Transaction)
    (nonce : U64) : Twin related (left.settle first tx nonce) (right.settle second tx nonce) := by
  have neutral : Neutral fun ledger => ledger.depositCommitment tx := by
    constructor
    all_goals
      intro ledger
      unfold Ledger.depositCommitment
      split <;> rfl
  exact ((twin.creditReceiver kept tx).neutral neutral).countNonce kept writable tx nonce

theorem storeReceipt (hash : Hash) (receipt : TxReceipt) :
    Twin related (left.storeReceipt hash receipt) (right.storeReceipt hash receipt) :=
  twin.mapDatabase kept blind_putReceipt.toAdds

theorem processTransfer (writable : first.registryWritable = second.registryWritable) :
    Matches (Twin related) (processTransfer first tx left) (processTransfer second tx right) := by
  rcases twin.agree.charge_cases tx with
    ⟨fault, failedLeft, failedRight⟩ | ⟨one, two, doneLeft, doneRight⟩
  · rw [processTransfer_of_error failedLeft, processTransfer_of_error failedRight]
    exact .error fault twin
  · have moved :
        Twin related (transferred left one first tx) (transferred right two second tx) := by
      unfold transferred
      rw [twin.nonces]
      exact (twin.charge kept doneLeft doneRight).settle kept writable tx _
    rw [processTransfer_of_charge doneLeft, processTransfer_of_charge doneRight]
    refine Matches.ofExcept_bind moved (moved.verifyPostTransactionConsistency tx) ?_
    intro _ _
    exact .ok () (moved.storeReceipt kept _ _)

theorem chargeExecution_cases (tx : Transaction) :
    (∃ fault, left.chargeExecution tx = .error fault ∧ right.chargeExecution tx = .error fault) ∨
    ∃ one two, left.chargeExecution tx = .ok one ∧ right.chargeExecution tx = .ok two ∧
      Twin related one two := by
  unfold chargeExecution
  rw [twin.balances, twin.nonces]
  split
  · by_cases payable : tx.fee ≤ right.getBalance tx.from
    · right
      refine ⟨_, _, ?_, ?_, twin.writeBalance kept tx.from (right.getBalance tx.from - tx.fee)
        (right.getNonce tx.from)⟩ <;> simp [bind, Except.bind, require, payable]
    · simp [bind, Except.bind, require, invalidTransaction, payable]
  · exact .inr ⟨left, right, rfl, rfl, twin⟩

theorem processExecution (matching : Alike.Matching left first second) (executor : EvmExecutor) :
    Matches (Twin related) (processExecution host first executor tx left)
      (processExecution host second executor tx right) := by
  have run := @EvmExecutor.executeTransaction_alike executor _ _ host.crypto host.interpreter tx
    left.highestBlockNumber (left.lastTimestamp first.now) twin.database
  rw [Ledger.processExecution, Ledger.processExecution, Fallible.get_bind, Fallible.get_bind,
    Ledger.execute,
    Ledger.execute, ← twin.toAlike.lastTimestamp matching,
      ← twin.toAlike.same Ledger.highestBlockNumber fun _ => rfl]
  generalize executor.executeTransaction left.database _ _ _ _ _ = one at run
  generalize executor.executeTransaction right.database _ _ _ _ _ = two at run
  cases run with
  | error reason =>
    cases reason with
    | none | some reason => exact .error _ twin
  | ok execution blind =>
    have executed := (twin.mapDatabase kept blind.toAdds).change
      (fun ledger => { ledger with evmExecutor := some execution.executor })
      (fun _ => rfl) (fun _ => rfl) (fun _ => rfl) fun _ => rfl
    show Matches _ ((Fallible.ofExcept (Ledger.chargeExecution _ tx) >>= _) _)
      ((Fallible.ofExcept (Ledger.chargeExecution _ tx) >>= _) _)
    rcases executed.chargeExecution_cases kept tx with
      ⟨fault, failedLeft, failedRight⟩ | ⟨paidLeft, paidRight, leftPaid, rightPaid, paid⟩
    · rw [failedLeft, failedRight]
      exact .error fault executed
    · rw [leftPaid, rightPaid]
      exact .ok () (paid.storeReceipt kept _ _)

theorem processTransaction (matching : Alike.Matching left first second) (host : Host)
    (tx : Transaction) :
    Matches (Twin related) (processTransaction host first tx left)
      (processTransaction host second tx right) := by
  refine Matches.ofExcept_bind twin (twin.agree.checkReplay tx) ?_
  intro _ _
  cases privacyDataOf tx host with
  | some privacyTx => exact .ok () (twin.neutral (neutral_processPrivacyTransaction privacyTx))
  | none =>
    have executors : left.executorFor tx = right.executorFor tx :=
      twin.toAlike.same (fun ledger => ledger.executorFor tx) fun _ => rfl
    rw [executors]
    cases right.executorFor tx with
    | some executor => exact twin.processExecution kept matching executor
    | none => exact twin.processTransfer kept matching.writable

end Twin

/-- Twins process any transactions side by side. -/
theorem simulation_twin (kept : Kept related) (host : Host) :
    Simulation host (Twin related) fun _ _ => True where
  agree twin := twin.agree
  process _ twin := twin.processTransaction kept ⟨rfl, fun _ => rfl⟩ host _
  record block tx twin := twin.neutral (neutral_recordTransaction block tx)
  prune height twin := twin.neutral (neutral_pruneSpentOutputs height)

namespace Alike

variable (alike : Alike left right)

include alike

theorem applyTransaction (matching : Matching left first second)
    (doneLeft : applyTransaction host first block tx left = .ok () one)
    (doneRight : applyTransaction host second block tx right = .ok () two) : Alike one two := by
  obtain ⟨-, processedLeft, processLeft, rfl⟩ := applyTransaction_eq_ok.mp doneLeft
  obtain ⟨-, processedRight, processRight, rfl⟩ := applyTransaction_eq_ok.mp doneRight
  have processed := alike.twin.processTransaction kept_alike matching host tx
  rw [processLeft, processRight] at processed
  cases processed with
  | ok _ twin => exact (twin.neutral (neutral_recordTransaction block tx)).toAlike

omit alike in
theorem applyTransactions {first second : Nat → Encounter} (alike : Alike left right)
    (matching : ∀ index, Matching left (first index) (second index))
    (doneLeft : applyTransactions host block first transactions left = .ok () one)
    (doneRight : applyTransactions host block second transactions right = .ok () two) :
    Alike one two := by
  induction transactions generalizing first second left right with
  | nil =>
    cases doneLeft
    cases doneRight
    exact alike
  | cons tx rest ih =>
    obtain ⟨middleLeft, firstLeft, restLeft⟩ := applyTransactions_cons_eq_ok.mp doneLeft
    obtain ⟨middleRight, firstRight, restRight⟩ := applyTransactions_cons_eq_ok.mp doneRight
    have frame := keeps_applyTransaction (first 0) tx host block left
    rw [firstLeft] at frame
    have later : ∀ index, Matching middleLeft (first (index + 1)) (second (index + 1)) :=
      fun index =>
      ⟨(matching (index + 1)).writable,
        fun empty => (matching (index + 1)).clock (frame.blocks ▸ empty)⟩
    exact ih (alike.applyTransaction (matching 0) firstLeft firstRight) later restLeft restRight

theorem validateAndProcessTransactions {first second : Nat → Encounter}
    (matching : ∀ index, Matching left (first index) (second index))
    (doneLeft : validateAndProcessTransactions host first block left = .ok () one)
    (doneRight : validateAndProcessTransactions host second block right = .ok () two) :
    Alike one two := by
  obtain ⟨-, appliedLeft, applyLeft, rfl⟩ := validateAndProcessTransactions_eq_ok.mp doneLeft
  obtain ⟨-, appliedRight, applyRight, rfl⟩ := validateAndProcessTransactions_eq_ok.mp doneRight
  exact ((alike.applyTransactions matching applyLeft applyRight).twin.neutral
    (neutral_pruneSpentOutputs _)).toAlike

end Alike

end IronDag.Ledger

namespace IronDag.Blockchain

/-- Committing the same block keeps ledgers twins, whatever happens in the DAG. -/
theorem twin_commitBlock {left right : Blockchain} (kept : StateDatabase.Kept related)
    (twin : Ledger.Twin related left.toLedger right.toLedger) :
    Ledger.Twin related (left.commitBlock first block).toLedger
      (right.commitBlock second block).toLedger :=
  (twin.mapDatabase kept StateDatabase.adds_putBlock).change (fun ledger => { ledger with
    evmExecutor := ledger.evmExecutor.map fun executor =>
      executor.updateBlockHash block.header.blockNumber block.hash
    blocks := pushBlock ledger.blocks block
    cachedLatestBlockNumber :=
      if ledger.cachedLatestBlockNumber < block.header.blockNumber then block.header.blockNumber
      else ledger.cachedLatestBlockNumber
    recentTxHashes := rememberHashes ledger.recentTxHashes block.transactionHashes })
    (fun _ => rfl) (fun _ => rfl) (fun _ => rfl) fun _ => rfl

end IronDag.Blockchain
