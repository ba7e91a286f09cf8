import IronDag.Chain.Process

namespace IronDag

open Fallible

def Transaction.feePayer (tx : Transaction) : Address :=
  tx.sponsor.getD tx.from

namespace Ledger

variable {ledger : Ledger} {tx : Transaction} {encounter : Encounter} {address : Address}
  {nonce : U64}

theorem nonceCached_writeBalance {written address : Address} {balance : U128} :
    (ledger.writeBalance written balance nonce).NonceCached address ↔
      ledger.NonceCached address := by
  unfold NonceCached writeBalance
  cases ledger.verkleState with
  | some verkle => simp
  | none => cases ledger.database <;> simp

theorem charge_eq_ok : ledger.charge tx = .ok charged ↔ tx.value ≤ ledger.getBalance tx.from ∧
      match tx.sponsor with
      | some sponsor =>
        tx.fee ≤ ledger.getBalance sponsor ∧
          charged = (ledger.writeBalance sponsor (ledger.getBalance sponsor - tx.fee)
            (ledger.getNonce sponsor)).writeBalance tx.from (ledger.getBalance tx.from - tx.value)
              (Word.saturatingAdd (ledger.getNonce tx.from) 1)
      | none =>
        tx.fee ≤ ledger.getBalance tx.from - tx.value ∧
          charged = ledger.writeBalance tx.from (ledger.getBalance tx.from - tx.value - tx.fee)
            (Word.saturatingAdd (ledger.getNonce tx.from) 1) := by
  unfold charge
  by_cases covered : tx.value ≤ ledger.getBalance tx.from
  · cases tx.sponsor with
    | some sponsor =>
      by_cases payable : tx.fee ≤ ledger.getBalance sponsor <;>
        simp [bind, Except.bind, require, invalidTransaction, covered, payable, eq_comm]
    | none =>
      by_cases payable : tx.fee ≤ ledger.getBalance tx.from - tx.value <;>
        simp [bind, Except.bind, require, invalidTransaction, covered, payable, eq_comm]
  · simp [bind, Except.bind, require, invalidTransaction, covered]

/-- The fee is paid by the sponsor, if there is one. -/
def sponsored (ledger : Ledger) (tx : Transaction) : Ledger :=
  match tx.sponsor with
  | some sponsor =>
    ledger.writeBalance sponsor (ledger.getBalance sponsor - tx.fee) (ledger.getNonce sponsor)
  | none => ledger

theorem getBalance_sponsored : (ledger.sponsored tx).getBalance address =
    ledger.getBalance address - (if tx.sponsor = some address then tx.fee else 0) := by
  unfold sponsored
  cases tx.sponsor with
  | none => simp
  | some sponsor =>
    rw [getBalance_writeBalance]
    by_cases payer : address = sponsor
    · simp [payer]
    · rw [if_neg payer, if_neg (by simpa using fun same => payer same.symm), sub_zero]

theorem getNonce_sponsored : (ledger.sponsored tx).getNonce address = ledger.getNonce address := by
  unfold sponsored
  split
  · exact getNonce_writeBalance_same _ _ _ _
  · rfl

theorem eq_of_charge (done : ledger.charge tx = .ok charged) : charged =
    (ledger.sponsored tx).writeBalance tx.from
      (ledger.getBalance tx.from - tx.value - (if tx.sponsor = none then tx.fee else 0))
      (Word.saturatingAdd (ledger.getNonce tx.from) 1) := by
  obtain ⟨-, rest⟩ := charge_eq_ok.mp done
  unfold sponsored
  cases sponsored : tx.sponsor with
  | some sponsor | none =>
    rw [sponsored] at rest
    simp [rest.2]

/-- A ledger after writes of balances. -/
inductive Paid (ledger : Ledger) : Ledger → Prop where
  | nothing : Paid ledger ledger
  | write (earlier : Paid ledger middle) (address : Address) (balance : U128) (nonce : U64) :
      Paid ledger (middle.writeBalance address balance nonce)

theorem Paid.same (paid : Paid ledger after) (read : Ledger → α)
    (write : ∀ ledger address balance nonce,
      read (Ledger.writeBalance ledger address balance nonce) = read ledger) :
    read after = read ledger := by
  induction paid with
  | nothing => rfl
  | write _ _ _ _ ih => rw [write, ih]

theorem Paid.frame (paid : Paid ledger after) : after.walletRegistry = ledger.walletRegistry ∧
    (∀ address, after.NonceCached address ↔ ledger.NonceCached address) ∧
      (after.MemoryOnly ↔ ledger.MemoryOnly) := by
  refine ⟨paid.same walletRegistry fun _ _ _ _ => rfl, fun address => iff_of_eq ?_, iff_of_eq ?_⟩
  · exact paid.same (fun ledger => ledger.NonceCached address) fun _ _ _ _ =>
      propext nonceCached_writeBalance
  · exact paid.same MemoryOnly fun _ _ _ _ => by simp [MemoryOnly, writeBalance]

theorem paid_sponsored : Paid ledger (ledger.sponsored tx) := by
  unfold sponsored
  split
  · exact .write .nothing _ _ _
  · exact .nothing

theorem paid_charge (done : ledger.charge tx = .ok charged) : Paid ledger charged := by
  rw [eq_of_charge done]
  exact .write paid_sponsored _ _ _

theorem paid_creditReceiver : Paid ledger (ledger.creditReceiver tx) := by
  unfold creditReceiver
  split
  · exact .nothing
  · exact .write .nothing _ _ _

theorem paid_chargeExecution (done : ledger.chargeExecution tx = .ok charged) :
    Paid ledger charged := by
  unfold chargeExecution at done
  split at done
  · obtain ⟨-, done⟩ := Check.bind_eq_ok.mp done
    cases done
    exact .write .nothing _ _ _
  · cases done
    exact .nothing

section

variable (done : ledger.charge tx = .ok charged)

include done

/-- The sender's balance after the charge: with a sponsor, the fee leaves it alone. -/
theorem getBalance_charge_sender : charged.getBalance tx.from =
      ledger.getBalance tx.from - tx.value - (if tx.sponsor = none then tx.fee else 0) := by
  rw [eq_of_charge done, getBalance_writeBalance, if_pos rfl]

theorem getBalance_charge_other (other : address ≠ tx.from) : charged.getBalance address =
      ledger.getBalance address - (if tx.sponsor = some address then tx.fee else 0) := by
  rw [eq_of_charge done, getBalance_writeBalance, if_neg other, getBalance_sponsored]

theorem getNonce_charge_other (other : address ≠ tx.from) :
    charged.getNonce address = ledger.getNonce address := by
  rw [eq_of_charge done, getNonce_writeBalance_of_ne _ _ _ _ _ other, getNonce_sponsored]

/-- Where the cache alone knows the nonce, it is counted together with the balance. -/
theorem getNonce_charge_of_cached (cached : ledger.NonceCached tx.from) :
    charged.getNonce tx.from = Word.saturatingAdd (ledger.getNonce tx.from) 1 := by
  rw [eq_of_charge done, getNonce_writeBalance_of_cached]
  exact (paid_sponsored.frame.2.1 _).mpr cached

theorem getNonce_charge_of_stored (stored : ¬ledger.NonceCached tx.from) :
    charged.getNonce tx.from = ledger.getNonce tx.from := by
  rw [eq_of_charge done, getNonce_writeBalance_of_stored, getNonce_sponsored]
  exact mt (paid_sponsored.frame.2.1 _).mp stored

end

theorem getBalance_creditReceiver : (ledger.creditReceiver tx).getBalance address =
      ledger.getBalance address +
        (if tx.to ≠ Address.zero ∧ address = tx.to then tx.value else 0) := by
  unfold creditReceiver
  by_cases burned : tx.to = Address.zero
  · rw [if_pos burned, if_neg (fun credited => credited.1 burned)]
    simp
  · rw [if_neg burned, getBalance_writeBalance]
    by_cases receiver : address = tx.to
    · rw [if_pos receiver, if_pos ⟨burned, receiver⟩, receiver]
    · rw [if_neg receiver, if_neg (fun credited => receiver credited.2)]
      simp

theorem getNonce_creditReceiver :
    (ledger.creditReceiver tx).getNonce address = ledger.getNonce address := by
  unfold creditReceiver
  split
  · rfl
  · exact getNonce_writeBalance_same _ _ _ _

theorem depositCommitment_frame : (ledger.depositCommitment tx).walletRegistry =
      ledger.walletRegistry ∧ (ledger.depositCommitment tx).getBalance = ledger.getBalance ∧
      (ledger.depositCommitment tx).getNonce = ledger.getNonce ∧
      (ledger.depositCommitment tx).database = ledger.database ∧
      (ledger.depositCommitment tx).verkleState = ledger.verkleState := by
  unfold depositCommitment
  split <;> exact ⟨rfl, rfl, rfl, rfl, rfl⟩

theorem getBalance_countNonce :
    (ledger.countNonce encounter tx nonce).getBalance address = ledger.getBalance address := by
  unfold countNonce
  split
  · rfl
  · exact getBalance_writeNonce _ _ _ _

theorem getNonce_countNonce_other (other : address ≠ tx.from) :
    (ledger.countNonce encounter tx nonce).getNonce address = ledger.getNonce address := by
  unfold countNonce
  split
  · rfl
  · exact getNonce_writeNonce_of_ne _ _ _ _ other

theorem getNonce_countNonce_sender : (ledger.countNonce encounter tx nonce).getNonce tx.from =
      if ledger.walletHandled encounter tx ∨ ledger.MemoryOnly then ledger.getNonce tx.from
      else nonce := by
  unfold countNonce
  by_cases handled : ledger.walletHandled encounter tx = true
  · rw [if_pos handled, if_pos (.inl handled)]
    rfl
  · rw [if_neg handled]
    by_cases memory : ledger.MemoryOnly
    · rw [if_pos (.inr memory), writeNonce_of_memoryOnly _ _ _ memory]
    · rw [if_neg (by tauto), getNonce_writeNonce_of_persistent _ _ _ memory]

theorem walletHandled_congr {other : Ledger} (same : other.walletRegistry = ledger.walletRegistry) :
    other.walletHandled encounter tx = ledger.walletHandled encounter tx := by
  simp only [walletHandled, registryIf, same]

theorem memoryOnly_congr {other : Ledger} (database : other.database = ledger.database)
    (verkle : other.verkleState = ledger.verkleState) : other.MemoryOnly ↔ ledger.MemoryOnly := by
  rw [MemoryOnly, MemoryOnly, database, verkle]

theorem getBalance_settle : (ledger.settle encounter tx nonce).getBalance address =
      ledger.getBalance address +
        (if tx.to ≠ Address.zero ∧ address = tx.to then tx.value else 0) := by
  obtain ⟨-, balances, -⟩ := depositCommitment_frame
  rw [settle, getBalance_countNonce, balances, getBalance_creditReceiver]

theorem getNonce_settle_other (ledger : Ledger) (encounter : Encounter) (tx : Transaction)
    (nonce : U64) (other : address ≠ tx.from) :
    (ledger.settle encounter tx nonce).getNonce address = ledger.getNonce address := by
  obtain ⟨-, -, nonces, -⟩ := depositCommitment_frame
  rw [settle, getNonce_countNonce_other other, nonces, getNonce_creditReceiver]

theorem getNonce_settle_sender : (ledger.settle encounter tx nonce).getNonce tx.from =
      if ledger.walletHandled encounter tx ∨ ledger.MemoryOnly then ledger.getNonce tx.from
      else nonce := by
  obtain ⟨registry, -, nonces, database, verkle⟩ := depositCommitment_frame
  obtain ⟨sameRegistry, -, sameMode⟩ := paid_creditReceiver.frame
  rw [settle, getNonce_countNonce_sender, nonces, getNonce_creditReceiver,
    walletHandled_congr (registry.trans sameRegistry)]
  simp only [memoryOnly_congr database verkle, sameMode]

theorem memoryOnly_countNonce : (ledger.countNonce encounter tx nonce).MemoryOnly ↔
    ledger.MemoryOnly := by
  unfold countNonce
  split
  · rfl
  · simp [MemoryOnly, writeNonce]

theorem memoryOnly_settle : (ledger.settle encounter tx nonce).MemoryOnly ↔ ledger.MemoryOnly := by
  obtain ⟨-, -, -, database, verkle⟩ := depositCommitment_frame
  rw [settle, memoryOnly_countNonce,
    memoryOnly_congr database verkle, paid_creditReceiver.frame.2.2]

theorem getBalance_storeReceipt (ledger : Ledger) (hash : Hash) (receipt : TxReceipt) :
    (ledger.storeReceipt hash receipt).getBalance = ledger.getBalance := by
  unfold getBalance storeReceipt
  cases ledger.verkleState with
  | some verkle => rfl
  | none => cases ledger.database <;> rfl

theorem getNonce_storeReceipt (ledger : Ledger) (hash : Hash) (receipt : TxReceipt) :
    (ledger.storeReceipt hash receipt).getNonce = ledger.getNonce := by
  unfold getNonce storeReceipt
  cases ledger.verkleState with
  | some verkle => rfl
  | none => cases ledger.database <;> rfl

/-- The ledger after the writes of a transfer, as the consistency guard sees it. -/
def transferred (ledger charged : Ledger) (encounter : Encounter) (tx : Transaction) : Ledger :=
  charged.settle encounter tx (Word.saturatingAdd (ledger.getNonce tx.from) 1)

theorem nonceCached_of_memoryOnly (memory : ledger.MemoryOnly) : ledger.NonceCached address :=
  ⟨memory.1, fun database stored => by rw [memory.2] at stored; cases stored⟩

theorem getNonce_transferred_of_counted (done : ledger.charge tx = .ok charged)
    (counted : ledger.MemoryOnly ∨ ledger.walletHandled encounter tx = false) :
    (transferred ledger charged encounter tx).getNonce tx.from =
      Word.saturatingAdd (ledger.getNonce tx.from) 1 := by
  obtain ⟨registry, -, mode⟩ := (paid_charge done).frame
  rw [transferred, getNonce_settle_sender, walletHandled_congr registry]
  by_cases memory : ledger.MemoryOnly
  · rw [if_pos (.inr (mode.mpr memory))]
    exact getNonce_charge_of_cached done (nonceCached_of_memoryOnly memory)
  · have account : ledger.walletHandled encounter tx = false := counted.resolve_left memory
    rw [if_neg]
    rintro (handled | charged)
    · rw [account] at handled
      cases handled
    · exact memory (mode.mp charged)

theorem processTransfer_of_error (failed : ledger.charge tx = .error fault) :
    processTransfer encounter tx ledger = .error fault ledger := by
  rw [processTransfer, get_bind, failed]
  rfl

/-- Once the transfer is made, only the guard can stop it. -/
theorem processTransfer_of_charge (done : ledger.charge tx = .ok charged) :
    processTransfer encounter tx ledger =
      (Fallible.ofExcept
        ((transferred ledger charged encounter tx).verifyPostTransactionConsistency tx) >>= fun _ =>
        modify fun ledger => ledger.storeReceipt tx.hash transferReceipt)
          (transferred ledger charged encounter tx) := by
  rw [processTransfer, get_bind, done]
  rfl

theorem processTransfer_eq_ok : processTransfer encounter tx ledger = .ok () after ↔
    ∃ charged, ledger.charge tx = .ok charged ∧
      (transferred ledger charged encounter tx).verifyPostTransactionConsistency tx = .ok () ∧
      after = (transferred ledger charged encounter tx).storeReceipt tx.hash transferReceipt := by
  simp only [processTransfer, transferred, get_bind, ofExcept_bind_eq_ok (α := Ledger),
    check_bind_eq_ok, set_bind, modify_run, EStateM.Result.ok.injEq, true_and,
    eq_comm (a := after)]

theorem processTransaction_eq_ok_of_transfer (plain : privacyDataOf tx host = none)
    (native : ledger.executorFor tx = none) :
    processTransaction host encounter tx ledger = .ok () after ↔
      ledger.checkReplay tx = .ok () ∧ processTransfer encounter tx ledger = .ok () after := by
  simp only [processTransaction, plain, native, get_bind, check_bind_eq_ok]

theorem processExecution_eq_ok : processExecution host encounter executor tx ledger = .ok () after ↔
      ∃ executed execution charged,
        ledger.execute host encounter executor tx = .ok (executed, execution) ∧
        executed.chargeExecution tx = .ok charged ∧
        after = charged.storeReceipt tx.hash (executionReceipt tx execution) := by
  rw [processExecution, get_bind, ofExcept_bind_eq_ok]
  constructor
  · rintro ⟨⟨executed, execution⟩, ran, done⟩
    dsimp only at done
    rw [set_bind, ofExcept_bind_eq_ok] at done
    obtain ⟨charged, paid, stored⟩ := done
    cases stored
    exact ⟨executed, execution, charged, ran, paid, rfl⟩
  · rintro ⟨executed, execution, charged, ran, paid, rfl⟩
    refine ⟨(executed, execution), ran, ?_⟩
    dsimp only
    rw [set_bind, ofExcept_bind_eq_ok]
    exact ⟨charged, paid, rfl⟩

theorem contract_of_executorFor (enabled : ledger.executorFor tx = some executor) :
    tx.data ≠ [] := by
  unfold executorFor at enabled
  split at enabled
  · next both => exact both.1
  · cases enabled

/-- An execution is an answer of the interpreter whose changes are written. -/
theorem exists_commit_of_execute
    (contract : tx.data ≠ [])
    (ran : ledger.execute host encounter executor tx = .ok (after, execution)) :
    ∃ success commit,
      host.interpreter (executor.backend ledger.database tx ledger.highestBlockNumber
        (ledger.lastTimestamp encounter.now)) tx = .ok success ∧
      success.changes.foldlM EvmExecutor.Commit.apply
        { state := executor.state, batch := executor.store ledger.database } = some commit ∧
      after = { ledger with
        evmExecutor := some execution.executor
        database := if executor.persistent then commit.batch else ledger.database } := by
  unfold execute at ran
  split at ran
  · cases ran
  · cases ran
  · next done =>
    cases ran
    unfold EvmExecutor.executeTransaction at done
    rw [if_neg contract] at done
    split at done
    · cases done
    · unfold EvmExecutor.executeSputnik at done
      split at done
      · cases done
      · next success answered =>
        split at done
        · cases done
        · next committed stored kept =>
          cases done
          obtain ⟨commit, folded, same⟩ := Option.map_eq_some_iff.mp kept
          obtain ⟨rfl, rfl⟩ := Prod.mk.inj same
          exact ⟨success, commit, answered, folded, rfl⟩

theorem nonce_of_consistent {database : StateDatabase} (stored : ledger.database = some database)
    (consistent : ledger.verifyPostTransactionConsistency tx = .ok ()) :
    (database.getNonce tx.from).getD 0 = ledger.getNonce tx.from := by
  simp only [verifyPostTransactionConsistency, stored] at consistent
  by_contra different
  split at consistent <;> cases consistent

end Ledger

end IronDag
