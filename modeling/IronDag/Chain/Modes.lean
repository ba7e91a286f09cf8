import IronDag.Chain.Agree

namespace IronDag.Ledger

open Fallible (Matches)

variable {ledger : Ledger}

/-- What decides how a transaction is handled: the wallets, and whether there is an executor. -/
def handling (ledger : Ledger) : Option WalletRegistry × Bool × Bool :=
  (ledger.walletRegistry, ledger.evmEnabled, ledger.evmExecutor.isSome)

/-- Neither the executor nor a wallet has a part in the transaction. -/
def Native (host : Host) (ledger : Ledger) (tx : Transaction) : Prop :=
  privacyDataOf tx host = none → ledger.executorFor tx = none ∧
    ∀ registry, ledger.walletRegistry = some registry → registry.isContractWallet tx.from = false

theorem Native.congr (native : Native host ledger tx) (same : other.handling = ledger.handling) :
    Native host other tx := by
  obtain ⟨registry, enabled, executor⟩ : other.walletRegistry = ledger.walletRegistry ∧
      other.evmEnabled = ledger.evmEnabled ∧
        other.evmExecutor.isSome = ledger.evmExecutor.isSome := by
    simpa [handling] using same
  intro plain
  obtain ⟨none, accounts⟩ := native plain
  refine ⟨?_, by rw [registry]; exact accounts⟩
  rw [executorFor] at none ⊢
  rw [enabled]
  split
  · next contract =>
    rw [if_pos contract] at none
    rw [none] at executor
    exact Option.not_isSome_iff_eq_none.mp (by simp [executor])
  · rfl

theorem walletHandled_of_accounts
    (accounts : ∀ registry, ledger.walletRegistry = some registry →
      registry.isContractWallet tx.from = false) :
    ledger.walletHandled encounter tx = false := by
  unfold walletHandled registryIf
  split
  · cases known : ledger.walletRegistry with
    | none => rfl
    | some registry => exact accounts registry known
  · rfl

theorem Agree.handling (agree : Agree left right) : left.handling = right.handling := by
  have registry : left.walletRegistry = right.walletRegistry :=
    agree.same Ledger.walletRegistry fun _ => rfl
  have enabled : left.evmEnabled = right.evmEnabled := agree.same Ledger.evmEnabled fun _ => rfl
  rw [Ledger.handling, Ledger.handling, registry, enabled, agree.executor]

/-- The database has the balance that a read returns. -/
def BalanceStored (ledger : Ledger) (address : Address) : Prop :=
  ∀ database, ledger.database = some database →
    database.getBalance address = some (ledger.getBalance address)

theorem balanceStored_writeBalance_self (ledger : Ledger) (address : Address) (balance : U128)
    (nonce : U64) : (ledger.writeBalance address balance nonce).BalanceStored address := by
  intro database stored
  obtain ⟨before, -, rfl⟩ := Option.map_eq_some_iff.mp stored
  rw [getBalance_writeBalance, if_pos rfl, StateDatabase.getBalance_putBalance, if_pos rfl]

section

variable (known : ledger.BalanceStored address)

include known

theorem BalanceStored.writeBalance (written : Address)
    (balance : U128) (nonce : U64) :
    (ledger.writeBalance written balance nonce).BalanceStored address := by
  by_cases same : address = written
  · subst same
    exact balanceStored_writeBalance_self ledger address balance nonce
  · intro database stored
    obtain ⟨before, present, rfl⟩ := Option.map_eq_some_iff.mp stored
    rw [getBalance_writeBalance, if_neg same, StateDatabase.getBalance_putBalance, if_neg same]
    exact known before present

theorem BalanceStored.writeNonce (written : Address)
    (nonce : U64) : (ledger.writeNonce written nonce).BalanceStored address := by
  intro database stored
  obtain ⟨before, present, rfl⟩ := Option.map_eq_some_iff.mp stored
  rw [getBalance_writeNonce]
  exact known before present

theorem BalanceStored.depositCommitment (tx : Transaction) :
    (ledger.depositCommitment tx).BalanceStored address := by
  obtain ⟨-, balances, -, database, -⟩ := depositCommitment_frame
  intro store stored
  rw [balances]
  exact known store (database ▸ stored)

theorem BalanceStored.creditReceiver (tx : Transaction) :
    (ledger.creditReceiver tx).BalanceStored address := by
  unfold Ledger.creditReceiver
  split
  · exact known
  · exact known.writeBalance _ _ _

end

section

variable (done : ledger.charge tx = .ok charged)

include done

theorem balanceStored_charge : charged.BalanceStored tx.from := by
  rw [eq_of_charge done]
  exact balanceStored_writeBalance_self _ _ _ _

theorem transferred_eq (account : ledger.walletHandled encounter tx = false) :
    transferred ledger charged encounter tx =
      ((charged.creditReceiver tx).depositCommitment tx).writeNonce tx.from
        (Word.saturatingAdd (ledger.getNonce tx.from) 1) := by
  obtain ⟨registry, -, -⟩ := (paid_charge done).frame
  have handled :
      ((charged.creditReceiver tx).depositCommitment tx).walletHandled encounter tx = false := by
    rw [← account]
    exact walletHandled_congr
      (depositCommitment_frame.1.trans (paid_creditReceiver.frame.1.trans registry))
  rw [transferred, settle, countNonce, handled]
  exact if_neg Bool.false_ne_true

theorem consistent_transferred (account : ledger.walletHandled encounter tx = false) :
    (transferred ledger charged encounter tx).verifyPostTransactionConsistency tx = .ok () := by
  have sender : (transferred ledger charged encounter tx).BalanceStored tx.from := by
    rw [transferred_eq done account]
    exact (((balanceStored_charge done).creditReceiver tx).depositCommitment tx).writeNonce _ _
  have receiver : tx.to ≠ Address.zero →
      (transferred ledger charged encounter tx).BalanceStored tx.to := by
    intro credited
    have written : (charged.creditReceiver tx).BalanceStored tx.to := by
      rw [creditReceiver, if_neg credited]
      exact balanceStored_writeBalance_self _ _ _ _
    rw [transferred_eq done account]
    exact (written.depositCommitment tx).writeNonce _ _
  unfold verifyPostTransactionConsistency
  split
  · rfl
  · next database stored =>
    have nonce : (database.getNonce tx.from).getD 0 =
        (transferred ledger charged encounter tx).getNonce tx.from := by
      rw [getNonce_transferred_of_counted done (.inr account)]
      rw [transferred_eq done account] at stored
      obtain ⟨before, -, rfl⟩ := Option.map_eq_some_iff.mp stored
      rw [StateDatabase.getNonce_putNonce, if_pos rfl, Option.getD_some]
    rw [sender database stored, if_neg (fun different => different rfl), nonce,
      if_neg (fun different => different rfl), if_neg]
    rintro ⟨credited, different⟩
    rw [receiver credited database stored] at different
    exact different rfl

end

theorem Paid.shared (paid : Paid ledger after) :
    after.shared = ledger.shared ∧ after.evmExecutor = ledger.evmExecutor :=
  ⟨paid.same Ledger.shared fun _ _ _ _ => rfl, paid.same evmExecutor fun _ _ _ _ => rfl⟩

section

variable (done : ledger.charge tx = .ok charged)
  (account : ledger.walletHandled encounter tx = false)

include done account

theorem shared_transferred :
    (transferred ledger charged encounter tx).shared = (ledger.shared.depositCommitment tx).shared ∧
      (transferred ledger charged encounter tx).evmExecutor = ledger.evmExecutor := by
  obtain ⟨shared, executor⟩ := (paid_charge done).shared
  have credited := (@paid_creditReceiver charged tx).shared
  have deposited : ∀ before : Ledger, (before.depositCommitment tx).shared =
      (before.shared.depositCommitment tx).shared ∧
      (before.depositCommitment tx).evmExecutor = before.evmExecutor := by
    intro before
    unfold depositCommitment
    split <;> exact ⟨rfl, rfl⟩
  rw [transferred_eq done account]
  constructor
  · rw [← shared, ← credited.1]
    exact (deposited _).1
  · rw [← executor, ← credited.2]
    exact (deposited _).2

theorem handling_transferred :
    (transferred ledger charged encounter tx).handling = ledger.handling := by
  obtain ⟨shared, executor⟩ := shared_transferred done account
  have registry : (transferred ledger charged encounter tx).walletRegistry =
      ledger.walletRegistry :=
    (congrArg Ledger.walletRegistry shared).trans depositCommitment_frame.1
  have deposited : (ledger.shared.depositCommitment tx).evmEnabled = ledger.evmEnabled := by
    unfold depositCommitment
    split <;> rfl
  have enabled : (transferred ledger charged encounter tx).evmEnabled = ledger.evmEnabled :=
    (congrArg Ledger.evmEnabled shared).trans deposited
  rw [handling, handling, registry, enabled, executor]

end

theorem Agree.transferred (agree : Agree left right) (doneLeft : left.charge tx = .ok one)
    (doneRight : right.charge tx = .ok two) (accountLeft : left.walletHandled encounter tx = false)
    (accountRight : right.walletHandled encounter tx = false) :
    Agree (transferred left one encounter tx) (transferred right two encounter tx) where
  balances address := by
    have charged : one.getBalance address = two.getBalance address := by
      by_cases sender : address = tx.from
      · rw [sender, getBalance_charge_sender doneLeft,
          getBalance_charge_sender doneRight, agree.balances]
      · rw [getBalance_charge_other doneLeft sender,
          getBalance_charge_other doneRight sender, agree.balances]
    rw [Ledger.transferred, Ledger.transferred, getBalance_settle, getBalance_settle, charged]
  nonces address := by
    by_cases sender : address = tx.from
    · rw [sender, getNonce_transferred_of_counted doneLeft (.inr accountLeft),
        getNonce_transferred_of_counted doneRight (.inr accountRight), agree.nonces]
    · rw [Ledger.transferred, Ledger.transferred, getNonce_settle_other _ _ _ _ sender,
        getNonce_settle_other _ _ _ _ sender, getNonce_charge_other doneLeft sender,
        getNonce_charge_other doneRight sender, agree.nonces]
  shared := by
    rw [(shared_transferred doneLeft accountLeft).1,
      (shared_transferred doneRight accountRight).1, agree.shared]
  executor := by
    rw [(shared_transferred doneLeft accountLeft).2,
      (shared_transferred doneRight accountRight).2, agree.executor]

theorem Agree.storeReceipt (agree : Agree left right) (hash : Hash) (receipt : TxReceipt) :
    Agree (left.storeReceipt hash receipt) (right.storeReceipt hash receipt) where
  balances address := by rw [getBalance_storeReceipt, getBalance_storeReceipt, agree.balances]
  nonces address := by rw [getNonce_storeReceipt, getNonce_storeReceipt, agree.nonces]
  shared := agree.shared
  executor := agree.executor

/-- Agreeing ledgers that handle transactions in a given way. -/
def AgreeHandling (handling : Option WalletRegistry × Bool × Bool) (left right : Ledger) : Prop :=
  Agree left right ∧ left.handling = handling

theorem matches_processTransfer (handling : Option WalletRegistry × Bool × Bool)
    (accounts : ∀ registry, handling.1 = some registry → registry.isContractWallet tx.from = false)
    (states : AgreeHandling handling left right) :
    Matches (AgreeHandling handling) (processTransfer encounter tx left)
      (processTransfer encounter tx right) := by
  obtain ⟨agree, handled⟩ := states
  have accountLeft : left.walletHandled encounter tx = false :=
    walletHandled_of_accounts fun registry known =>
      accounts registry (by rw [← handled]; exact known)
  have accountRight : right.walletHandled encounter tx = false :=
    walletHandled_of_accounts fun registry known =>
      accounts registry (by rw [← handled, agree.handling]; exact known)
  rcases agree.charge_cases tx with
    ⟨fault, failedLeft, failedRight⟩ | ⟨one, two, doneLeft, doneRight⟩
  · rw [processTransfer_of_error failedLeft, processTransfer_of_error failedRight]
    exact .error fault ⟨agree, handled⟩
  · have outcome : ∀ {ledger charged : Ledger}, ledger.charge tx = .ok charged →
        ledger.walletHandled encounter tx = false → processTransfer encounter tx ledger =
          .ok () ((transferred ledger charged encounter tx).storeReceipt tx.hash transferReceipt) :=
      fun done account =>
        processTransfer_eq_ok.mpr ⟨_, done, consistent_transferred done account, rfl⟩
    rw [outcome doneLeft accountLeft, outcome doneRight accountRight]
    refine .ok ()
      ⟨(agree.transferred doneLeft doneRight accountLeft accountRight).storeReceipt _ _, ?_⟩
    exact (handling_transferred doneLeft accountLeft).trans handled

/-- Ledgers in different storage modes process native transactions side by side. -/
theorem simulation_native (host : Host) (start : Ledger) :
    Simulation host (AgreeHandling start.handling) fun _ tx => Native host start tx where
  agree states := states.1
  process := by
    intro left right encounter tx native states
    refine Matches.ofExcept_bind states (states.1.checkReplay tx) ?_
    intro _ _
    cases data : privacyDataOf tx host with
    | some privacyTx =>
      refine .ok () ⟨(neutral_processPrivacyTransaction privacyTx).agree states.1, ?_⟩
      rw [← states.2]
      unfold processPrivacyTransaction
      split <;> rfl
    | none =>
      have nativeLeft : Native host left tx := native.congr states.2
      have nativeRight : Native host right tx := nativeLeft.congr states.1.handling.symm
      rw [(nativeLeft data).1, (nativeRight data).1]
      exact matches_processTransfer start.handling (native data).2 states
  record block tx states := by
    refine ⟨(neutral_recordTransaction block tx).agree states.1, ?_⟩
    rw [← states.2]
    unfold recordTransaction recordSponsorSpend
    split <;> rfl
  prune height states := by
    refine ⟨(neutral_pruneSpentOutputs height).agree states.1, ?_⟩
    rw [← states.2]
    unfold pruneSpentOutputs
    split <;> rfl

end IronDag.Ledger
