import IronDag.Chain.Blockchain
import IronDag.Chain.Effects
import IronDag.Chain.StoreReplica

/-!
What the processing of transactions leaves alone, whether it succeeds or fails: the blocks, the
configuration, who may sign for a wallet, and the accounts that are in the database.
-/

namespace IronDag

open Fallible StateDatabase

namespace Ledger

def signerPolicy (ledger : Ledger) (address : Address) : Option (Option (List Address × Byte)) :=
  ledger.walletRegistry.bind fun registry =>
    (registry.lookup address).map SmartContractWallet.signerPolicy

/-- The database is written and nothing is removed from it. -/
def Written (before after : Ledger) : Prop :=
  ∃ write, StateDatabase.Blind write ∧ after.database = before.database.map write

theorem written_of_eq (same : after.database = before.database) : Written before after :=
  ⟨id, blind_id, by rw [same]; simp⟩

theorem Written.trans (first : Written one two) (second : Written two three) :
    Written one three := by
  obtain ⟨earlier, blindEarlier, middle⟩ := first
  obtain ⟨later, blindLater, last⟩ := second
  exact ⟨later ∘ earlier, blindLater.comp blindEarlier, by rw [last, middle, Option.map_map]⟩

structure Frame (before after : Ledger) : Prop where
  blocks : after.blocks = before.blocks
  cachedLatestBlockNumber : after.cachedLatestBlockNumber = before.cachedLatestBlockNumber
  recentTxHashes : after.recentTxHashes = before.recentTxHashes
  evmEnabled : after.evmEnabled = before.evmEnabled
  evmExecutor : after.evmExecutor.isSome = before.evmExecutor.isSome
  walletRegistry : after.walletRegistry.isSome = before.walletRegistry.isSome
  signerPolicy : ∀ address, after.signerPolicy address = before.signerPolicy address
  chainId : after.chainId = before.chainId
  verkleState : after.verkleState.isSome = before.verkleState.isSome
  database : Written before after

theorem Frame.refl (ledger : Ledger) : Frame ledger ledger :=
  ⟨rfl, rfl, rfl, rfl, rfl, rfl, fun _ => rfl, rfl, rfl, written_of_eq rfl⟩

theorem Frame.trans (first : Frame one two) (second : Frame two three) : Frame one three where
  blocks := second.blocks.trans first.blocks
  cachedLatestBlockNumber := second.cachedLatestBlockNumber.trans first.cachedLatestBlockNumber
  recentTxHashes := second.recentTxHashes.trans first.recentTxHashes
  evmEnabled := second.evmEnabled.trans first.evmEnabled
  evmExecutor := second.evmExecutor.trans first.evmExecutor
  walletRegistry := second.walletRegistry.trans first.walletRegistry
  signerPolicy := fun address => (second.signerPolicy address).trans (first.signerPolicy address)
  chainId := second.chainId.trans first.chainId
  verkleState := second.verkleState.trans first.verkleState
  database := first.database.trans second.database

instance : Std.Refl Frame := ⟨Frame.refl⟩

instance : IsTrans Ledger Frame := ⟨fun _ _ _ => Frame.trans⟩

/-- While one transaction is processed, the records of earlier ones stay as well. -/
structure TxFrame (before after : Ledger) : Prop extends Frame before after where
  spentOutputs : after.spentOutputs = before.spentOutputs
  sponsorRegistry : after.sponsorRegistry = before.sponsorRegistry

theorem TxFrame.refl (ledger : Ledger) : TxFrame ledger ledger := ⟨Frame.refl ledger, rfl, rfl⟩

theorem TxFrame.trans (first : TxFrame one two) (second : TxFrame two three) : TxFrame one three :=
  ⟨first.toFrame.trans second.toFrame, second.spentOutputs.trans first.spentOutputs,
    second.sponsorRegistry.trans first.sponsorRegistry⟩

variable (ledger : Ledger) (encounter : Encounter) (tx : Transaction)

variable {nonce : U64} {address : Address}

theorem frame_writeBalance {balance : U128} :
    TxFrame ledger (ledger.writeBalance address balance nonce) :=
  ⟨⟨rfl, rfl, rfl, rfl, rfl, rfl, fun _ => rfl, rfl, by simp [writeBalance],
    _, blind_putBalance address balance, rfl⟩, rfl, rfl⟩

theorem frame_writeNonce : TxFrame ledger (ledger.writeNonce address nonce) :=
  ⟨⟨rfl, rfl, rfl, rfl, rfl, rfl, fun _ => rfl, rfl, by simp [writeNonce], _, blind_putNonce, rfl⟩,
    rfl, rfl⟩

theorem frame_storeReceipt (hash : Hash) (receipt : TxReceipt) :
    TxFrame ledger (ledger.storeReceipt hash receipt) :=
  ⟨⟨rfl, rfl, rfl, rfl, rfl, rfl, fun _ => rfl, rfl, rfl, _, blind_putReceipt, rfl⟩, rfl, rfl⟩

theorem Paid.txFrame (paid : Paid ledger after) : TxFrame ledger after := by
  induction paid with
  | nothing => exact TxFrame.refl ledger
  | write _ _ _ _ ih => exact ih.trans (frame_writeBalance _)

theorem frame_depositCommitment : TxFrame ledger (ledger.depositCommitment tx) := by
  unfold depositCommitment
  split
  · exact ⟨⟨rfl, rfl, rfl, rfl, rfl, rfl, fun _ => rfl, rfl, rfl, written_of_eq rfl⟩, rfl, rfl⟩
  · exact TxFrame.refl ledger

theorem frame_countNonce : TxFrame ledger (ledger.countNonce encounter tx nonce) := by
  unfold countNonce
  split
  · refine ⟨⟨rfl, rfl, rfl, rfl, rfl, by simp, fun address => ?_, rfl, rfl, written_of_eq rfl⟩,
      rfl, rfl⟩
    unfold signerPolicy
    cases ledger.walletRegistry with
    | none => rfl
    | some registry => exact WalletRegistry.signerPolicy_recordTransaction registry
  · exact frame_writeNonce _

theorem frame_settle (nonce : U64) : TxFrame ledger (ledger.settle encounter tx nonce) :=
  (paid_creditReceiver.txFrame.trans (frame_depositCommitment _ tx)).trans
    (frame_countNonce _ encounter tx)

theorem frame_processPrivacyTransaction :
    TxFrame ledger (ledger.processPrivacyTransaction privacyTx) := by
  unfold processPrivacyTransaction
  split
  · exact ⟨⟨rfl, rfl, rfl, rfl, rfl, rfl, fun _ => rfl, rfl, rfl, written_of_eq rfl⟩, rfl, rfl⟩
  · exact TxFrame.refl ledger

theorem frame_execute (enabled : ledger.executorFor tx = some executor)
    (done : ledger.execute host encounter executor tx = .ok (executed, execution)) :
    TxFrame ledger executed := by
  have present : ledger.evmExecutor.isSome = true := by
    unfold executorFor at enabled
    split at enabled
    · rw [enabled]
      rfl
    · cases enabled
  have run := @EvmExecutor.executeTransaction_alike executor _ _ host.crypto host.interpreter tx
    ledger.highestBlockNumber (ledger.lastTimestamp encounter.now)
      (rel_self StateDatabase.Alike.refl ledger.database)
  unfold execute at done
  split at done
  · cases done
  · cases done
  · next ran =>
    rw [ran] at run
    cases run with
    | ok execution blind =>
      cases done
      exact ⟨⟨rfl, rfl, rfl, rfl, present.symm, rfl, fun _ => rfl, rfl, rfl, _, blind, rfl⟩,
        rfl, rfl⟩

theorem keeps_processTransfer : Fallible.Keeps TxFrame (processTransfer encounter tx) := by
  intro ledger
  apply finalState_ofExcept_bind (TxFrame.refl ledger)
  intro charged done
  have settled := (paid_charge done).txFrame.trans
    (frame_settle charged encounter tx (Word.saturatingAdd (ledger.getNonce tx.from) 1))
  apply finalState_ofExcept_bind settled
  intro _ _
  exact settled.trans (frame_storeReceipt _ _ _)

theorem keeps_processExecution {ledger : Ledger} (enabled : ledger.executorFor tx = some executor) :
    TxFrame ledger (Fallible.finalState (processExecution host encounter executor tx ledger)) := by
  apply finalState_ofExcept_bind (TxFrame.refl ledger)
  rintro ⟨executed, execution⟩ done
  have kept := frame_execute ledger encounter tx enabled done
  apply finalState_ofExcept_bind kept
  intro charged fee
  exact (kept.trans (paid_chargeExecution fee).txFrame).trans (frame_storeReceipt _ _ _)

theorem keeps_processTransaction (host : Host) :
    Fallible.Keeps TxFrame (processTransaction host encounter tx) := by
  intro ledger
  apply finalState_ofExcept_bind (TxFrame.refl ledger)
  intro _ _
  cases privacyDataOf tx host with
  | some privacyTx => exact frame_processPrivacyTransaction ledger
  | none =>
    cases enabled : ledger.executorFor tx with
    | some executor => exact keeps_processExecution encounter tx enabled
    | none => exact keeps_processTransfer encounter tx ledger

theorem frame_record {block : Block} :
    Frame ledger
      ((ledger.recordSpentOutput tx block.hash block.header.blockNumber).recordSponsorSpend tx
        block.header.blockNumber) := by
  unfold recordSponsorSpend
  split <;> exact ⟨rfl, rfl, rfl, rfl, rfl, rfl, fun _ => rfl, rfl, rfl, written_of_eq rfl⟩

theorem keeps_applyTransaction (host : Host) (block : Block) :
    Fallible.Keeps Frame (applyTransaction host encounter block tx) := by
  intro ledger
  apply finalState_ofExcept_bind (Frame.refl ledger)
  intro _ _
  apply Keeps.from_bind (keeps_processTransaction encounter tx host ledger).toFrame
  intro _
  exact Keeps.modify fun ledger => frame_record ledger tx

theorem keeps_applyTransactions (host : Host) (block : Block) (encounters : Nat → Encounter)
    (transactions : List Transaction) :
    Fallible.Keeps Frame (applyTransactions host block encounters transactions) := by
  induction transactions generalizing encounters with
  | nil => exact Keeps.pure ()
  | cons tx rest ih =>
    apply Keeps.bind (keeps_applyTransaction (encounters 0) tx host block)
    intro _
    exact ih _

theorem frame_pruneSpentOutputs {height : U64} :
    Frame ledger (ledger.pruneSpentOutputs height) := by
  unfold pruneSpentOutputs
  split
  · exact Frame.refl ledger
  · exact ⟨rfl, rfl, rfl, rfl, rfl, rfl, fun _ => rfl, rfl, rfl, written_of_eq rfl⟩

theorem keeps_validateAndProcessTransactions (host : Host) (encounters : Nat → Encounter)
    (block : Block) :
    Fallible.Keeps Frame (validateAndProcessTransactions host encounters block) := by
  intro ledger
  apply finalState_ofExcept_bind (Frame.refl ledger)
  intro _ _
  apply Keeps.from_bind (keeps_applyTransactions host block encounters block.transactions ledger)
  intro _
  exact Keeps.modify fun ledger => frame_pruneSpentOutputs ledger

end Ledger

namespace Blockchain

variable (chain : Blockchain) (written address : Address) (account : AccountState)

theorem getBalance_commitBlock (conditions : Conditions) (block : Block) :
    (chain.commitBlock conditions block).getBalance address = chain.getBalance address := by
  unfold Ledger.getBalance commitBlock
  cases chain.database <;> rfl

theorem getNonce_commitBlock {conditions : Conditions} {block : Block} :
    (chain.commitBlock conditions block).getNonce address = chain.getNonce address := by
  unfold Ledger.getNonce commitBlock
  cases chain.database <;> rfl

/-- The balance of an address is read from the cache. -/
def cachesBalance : Bool :=
  chain.verkleState.isNone &&
    (chain.database.bind fun database => database.getBalance address).isNone

theorem getBalance_cacheAccount : (chain.cacheAccount written account).getBalance address =
      if address = written ∧ chain.cachesBalance address then account.balance
      else chain.getBalance address := by
  unfold cachesBalance Ledger.getBalance cacheAccount
  cases chain.verkleState with
  | some verkle => simp
  | none =>
    by_cases same : address = written
    · subst same
      cases found : chain.database.bind fun database => database.getBalance address with
      | some balance | none => simp
    · simp [same]

/-- A write to the cache is seen where neither the Verkle state nor the database knows the nonce. -/
theorem getNonce_cacheAccount :
    (chain.cacheAccount written account).getNonce address = chain.getNonce address ∨
      (address = written ∧
        (chain.cacheAccount written account).getNonce address = account.nonce) := by
  unfold Ledger.getNonce cacheAccount
  cases chain.verkleState with
  | some verkle => exact .inl rfl
  | none =>
    by_cases same : address = written
    · subst same
      cases found : chain.database.bind fun database => database.getNonce address with
      | some nonce => exact .inl (by simp)
      | none => exact .inr ⟨rfl, by simp⟩
    · exact .inl (by simp [same])

end Blockchain

end IronDag
