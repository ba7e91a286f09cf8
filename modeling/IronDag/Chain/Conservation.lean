import IronDag.Chain.Effects
import IronDag.Lib.Movement
import Mathlib.Data.FinEnum

namespace IronDag

open BitVec Option Transaction Address

/-- What a transfer is for: the value goes from the sender to the receiver, unless that is the
zero address, and the payer pays the fee. -/
def Transaction.movement (tx : Transaction) : Movement Address where
  sender := tx.from
  receiver := if tx.to = zero then none else some tx.to
  payer := tx.feePayer
  value := tx.value.toNat
  fee := tx.fee.toNat

namespace Ledger

def totalBalance (ledger : Ledger) : Nat :=
  ∑ address : Address, (ledger.getBalance address).toNat

/-- Value is conserved from one ledger to the next: the fee leaves the accounts, and so does a
value sent to the zero address; the payer is charged; other accounts and nonces stay. -/
structure Conserves (tx : Transaction) (before after : Ledger) : Prop where
  total : after.totalBalance + (tx.fee.toNat + (if tx.to = zero then tx.value.toNat else 0)) =
    before.totalBalance
  moved : ∀ address, ((after.getBalance address).toNat : Int) =
    (before.getBalance address).toNat + tx.movement.change address
  untouched : ∀ address, address ≠ tx.from → address ≠ tx.to → tx.sponsor ≠ some address →
    after.getBalance address = before.getBalance address
  senderNonce : (after.getNonce tx.from).toNat = (before.getNonce tx.from).toNat + 1
  otherNonces : ∀ address, address ≠ tx.from → after.getNonce address = before.getNonce address

/-- The condition under which a processed transfer conserves value. -/
structure Conservative (ledger : Ledger) (encounter : Encounter) (tx : Transaction) : Prop where
  notOwnSponsor : tx.sponsor = some tx.from → tx.fee = 0
  receiverFits : tx.to ≠ zero →
    ((ledger.getBalance tx.to).toNat : Int) + tx.movement.change tx.to < 2 ^ 128
  nonceLeft : ledger.getNonce tx.from ≠ allOnes 64
  accountCounted : ledger.MemoryOnly ∨ ledger.walletHandled encounter tx = false

variable {ledger charged after : Ledger} {encounter : Encounter} {tx : Transaction}

theorem toNat_charge_sender (done : ledger.charge tx = .ok charged) :
    (charged.getBalance tx.from).toNat + tx.value.toNat +
      (if tx.sponsor = none then tx.fee.toNat else 0) = (ledger.getBalance tx.from).toNat := by
  have read := getBalance_charge_sender done
  obtain ⟨covered, rest⟩ := charge_eq_ok.mp done
  have remaining := toNat_sub_of_le covered
  rw [le_def] at covered
  cases sponsored : tx.sponsor with
  | some sponsor =>
    rw [sponsored, if_neg (by simp), sub_zero] at read
    rw [read, if_neg (by simp)]
    omega
  | none =>
    rw [sponsored] at rest
    obtain ⟨payable, -⟩ := rest
    rw [sponsored, if_pos rfl] at read
    rw [read, toNat_sub_of_le payable, if_pos rfl]
    rw [le_def] at payable
    omega

theorem toNat_charge_other (done : ledger.charge tx = .ok charged) (other : address ≠ tx.from) :
    (charged.getBalance address).toNat + (if tx.sponsor = some address then tx.fee.toNat else 0) =
      (ledger.getBalance address).toNat := by
  have read := getBalance_charge_other done other
  obtain ⟨-, rest⟩ := charge_eq_ok.mp done
  by_cases payer : tx.sponsor = some address
  · rw [payer] at rest
    obtain ⟨payable, -⟩ := rest
    rw [if_pos payer] at read ⊢
    rw [read, toNat_sub_of_le payable]
    rw [le_def] at payable
    omega
  · rw [if_neg payer, sub_zero] at read
    rw [if_neg payer, read, Nat.add_zero]

variable {address : Address} {tx : Transaction}

theorem debit_eq : tx.movement.debit address = (if address = tx.from then tx.value.toNat else 0) +
      (if address = tx.feePayer then tx.fee.toNat else 0) :=
  rfl

theorem toNat_charge (done : ledger.charge tx = .ok charged)
    (own : tx.sponsor = some tx.from → tx.fee = 0) (address : Address) :
    (charged.getBalance address).toNat + tx.movement.debit address =
      (ledger.getBalance address).toNat := by
  rw [debit_eq, Transaction.feePayer]
  by_cases sender : address = tx.from
  · subst sender
    have read := toNat_charge_sender done
    rw [if_pos rfl]
    cases sponsored : tx.sponsor with
    | none =>
      rw [sponsored, if_pos rfl] at read
      rw [getD_none, if_pos rfl]
      omega
    | some sponsor =>
      rw [sponsored, if_neg (by simp)] at read
      rw [getD_some]
      by_cases self : tx.from = sponsor
      · have free : tx.fee.toNat = 0 := by
          rw [own (by rw [sponsored, ← self])]
          rfl
        rw [if_pos self]
        omega
      · rw [if_neg self]
        omega
  · have read := toNat_charge_other done sender
    rw [if_neg sender]
    cases sponsored : tx.sponsor with
    | none =>
      rw [sponsored, if_neg (by simp)] at read
      rw [getD_none, if_neg sender]
      omega
    | some sponsor =>
      rw [sponsored] at read
      rw [getD_some]
      by_cases payer : address = sponsor
      · rw [if_pos (by rw [payer])] at read
        rw [if_pos payer]
        omega
      · rw [if_neg (by simpa using fun same => payer same.symm)] at read
        rw [if_neg payer]
        omega

theorem credit_eq :
    tx.movement.credit address = if tx.to ≠ zero ∧ address = tx.to then tx.value.toNat else 0 := by
  unfold Movement.credit Transaction.movement
  by_cases burned : tx.to = zero
  · simp [burned]
  · simp [eq_comm]

theorem toNat_transferred {ledger charged : Ledger} {encounter : Encounter} :
    ((transferred ledger charged encounter tx).getBalance address).toNat =
      ((charged.getBalance address).toNat + tx.movement.credit address) % 2 ^ 128 := by
  rw [transferred, getBalance_settle, credit_eq]
  split <;> rfl

theorem change_eq_zero (sender : address ≠ tx.from) (receiver : address ≠ tx.to)
    (sponsor : tx.sponsor ≠ some address) : tx.movement.change address = 0 := by
  apply Movement.change_eq_zero
  · exact sender
  · show address ≠ tx.sponsor.getD tx.from
    cases sponsored : tx.sponsor with
    | none => exact sender
    | some other =>
      rw [sponsored] at sponsor
      exact fun same => sponsor (by rw [same, getD_some])
  · show (if tx.to = Address.zero then none else some tx.to) ≠ some address
    split
    · simp
    · exact fun same => receiver (some.inj same).symm

theorem total_of_moved {before : Ledger}
    (moved : ∀ address, ((after.getBalance address).toNat : Int) =
      (before.getBalance address).toNat + tx.movement.change address) :
    after.totalBalance + (tx.fee.toNat + (if tx.to = zero then tx.value.toNat else 0)) =
      before.totalBalance := by
  have burned : tx.movement.receiver = none ↔ tx.to = zero := by
    simp [Transaction.movement]
  have lost := tx.movement.total_add_lost moved
  simp only [Movement.lost, burned] at lost
  exact lost

section

variable (done : ledger.charge tx = .ok charged)

include done

theorem nonceCached_transferred_of_wallet (handled : ledger.walletHandled encounter tx = true) :
    (transferred ledger charged encounter tx).NonceCached tx.from ↔ ledger.NonceCached tx.from := by
  obtain ⟨registry, cached, -⟩ := (paid_charge done).frame
  obtain ⟨deposited, -, -, database, verkle⟩ := depositCommitment_frame
  have counts :
      ((charged.creditReceiver tx).depositCommitment tx).walletHandled encounter tx = true := by
    rw [walletHandled_congr (deposited.trans (paid_creditReceiver.frame.1.trans registry)), handled]
  have credited := (@paid_creditReceiver charged tx).frame.2.1 tx.from
  rw [← cached, ← credited, transferred, settle, countNonce, if_pos counts]
  simp only [NonceCached, database, verkle]

/-- A wallet's account is left at its nonce. Where only the cache knows the nonce, the guard
finds the difference and the transfer fails. -/
theorem getNonce_transferred_of_wallet
    (handled : ledger.walletHandled encounter tx = true) (persistent : ¬ledger.MemoryOnly)
    (consistent : (transferred ledger charged encounter tx).verifyPostTransactionConsistency
      tx = .ok ()) :
    (transferred ledger charged encounter tx).getNonce tx.from = ledger.getNonce tx.from := by
  obtain ⟨registry, -, mode⟩ := (paid_charge done).frame
  have read : (transferred ledger charged encounter tx).getNonce tx.from =
      charged.getNonce tx.from := by
    rw [transferred, getNonce_settle_sender, walletHandled_congr registry, if_pos (.inl handled)]
  by_cases cached : ledger.NonceCached tx.from
  · obtain ⟨noVerkle, unknown⟩ := (nonceCached_transferred_of_wallet done handled).mpr cached
    cases present : (transferred ledger charged encounter tx).database with
    | none =>
      have memory : (transferred ledger charged encounter tx).MemoryOnly := ⟨noVerkle, present⟩
      rw [transferred, memoryOnly_settle, mode] at memory
      exact absurd memory persistent
    | some database =>
      have compared := nonce_of_consistent present consistent
      rw [unknown database present, getD_none, read,
        getNonce_charge_of_cached done cached] at compared
      have values := congrArg BitVec.toNat compared
      rw [Word.toNat_saturatingAdd] at values
      simp only [ofNat_eq_ofNat, toNat_ofNat] at values
      omega
  · rw [read]
    exact getNonce_charge_of_stored done cached

theorem senderNonce_iff
    (consistent : (transferred ledger charged encounter tx).verifyPostTransactionConsistency
      tx = .ok ()) :
    ((transferred ledger charged encounter tx).getNonce tx.from).toNat =
      (ledger.getNonce tx.from).toNat + 1 ↔
      ledger.getNonce tx.from ≠ allOnes 64 ∧
        (ledger.MemoryOnly ∨ ledger.walletHandled encounter tx = false) := by
  by_cases counted : ledger.MemoryOnly ∨ ledger.walletHandled encounter tx = false
  · rw [getNonce_transferred_of_counted done counted, Word.saturatingAdd_one_toNat]
    exact ⟨fun left => ⟨left, counted⟩, fun both => both.1⟩
  · have persistent : ¬ledger.MemoryOnly := fun memory => counted (.inl memory)
    have handled : ledger.walletHandled encounter tx = true :=
      Bool.eq_true_of_not_eq_false fun account => counted (.inr account)
    rw [getNonce_transferred_of_wallet done handled persistent consistent]
    constructor
    · omega
    · intro both
      exact absurd both.2 counted

theorem moved_iff :
    (∀ address, (((transferred ledger charged encounter tx).getBalance address).toNat : Int) =
        (ledger.getBalance address).toNat + tx.movement.change address) ↔
      (tx.sponsor = some tx.from → tx.fee = 0) ∧
        (tx.to ≠ zero → ((ledger.getBalance tx.to).toNat : Int) + tx.movement.change tx.to <
          2 ^ 128) := by
  constructor
  · intro moved
    constructor
    · intro own
      have step := moved tx.from
      have charge := toNat_charge_sender done
      have payer : tx.feePayer = tx.from := by rw [Transaction.feePayer, own, getD_some]
      have given : tx.movement.debit tx.from = tx.value.toNat + tx.fee.toNat := by
        rw [debit_eq, payer, if_pos rfl, if_pos rfl]
      rw [own, if_neg (by simp)] at charge
      rw [toNat_transferred, Movement.change] at step
      apply eq_of_toNat_eq
      simp only [ofNat_eq_ofNat, toNat_ofNat]
      omega
    · intro _
      rw [← moved tx.to]
      exact_mod_cast ((transferred ledger charged encounter tx).getBalance tx.to).isLt
  · rintro ⟨own, fits⟩ address
    have charge := toNat_charge done own address
    have small : (charged.getBalance address).toNat + tx.movement.credit address < 2 ^ 128 := by
      by_cases receiver : tx.to ≠ zero ∧ address = tx.to
      · have room := fits receiver.1
        rw [receiver.2] at charge ⊢
        unfold Movement.change at room
        omega
      · rw [credit_eq, if_neg receiver]
        omega
    rw [toNat_transferred, Movement.change]
    omega

end

/-- A processed transfer conserves value exactly under the condition. -/
theorem processTransaction_conserves_iff {host : Host} (plain : privacyDataOf tx host = none)
    (native : ledger.executorFor tx = none)
    (done : processTransaction host encounter tx ledger = .ok () after) :
    Conserves tx ledger after ↔ ledger.Conservative encounter tx := by
  obtain ⟨-, transfer⟩ := (processTransaction_eq_ok_of_transfer plain native).mp done
  obtain ⟨charged, charge, consistent, rfl⟩ := processTransfer_eq_ok.mp transfer
  have balances :=
    getBalance_storeReceipt (transferred ledger charged encounter tx) tx.hash transferReceipt
  have nonces :=
    getNonce_storeReceipt (transferred ledger charged encounter tx) tx.hash transferReceipt
  constructor
  · rintro ⟨-, moved, -, sender, -⟩
    rw [balances] at moved
    rw [nonces] at sender
    obtain ⟨own, fits⟩ := (moved_iff charge).mp moved
    obtain ⟨left, counted⟩ := (senderNonce_iff charge consistent).mp sender
    exact ⟨own, fits, left, counted⟩
  · rintro ⟨own, fits, left, counted⟩
    have moved := (@moved_iff ledger charged encounter tx charge).mpr ⟨own, fits⟩
    rw [← balances] at moved
    refine ⟨total_of_moved moved, moved, ?_, ?_, ?_⟩
    · intro address sender receiver sponsor
      apply eq_of_toNat_eq
      have step := moved address
      rw [change_eq_zero sender receiver sponsor] at step
      omega
    · rw [nonces]
      exact (senderNonce_iff charge consistent).mpr ⟨left, counted⟩
    · intro address other
      rw [nonces, transferred, getNonce_settle_other _ _ _ _ other,
        getNonce_charge_other charge other]

def funded : Ledger :=
  { Ledger.new with
    accounts := (∅ : Table Address AccountState).insert sampleSender
      { balance := 100000, nonce := 0 }
    sponsorRegistry := (∅ : SponsorRegistry).insert sampleSender
      { active := true, allowedSenders := none, maxFeePerTx := none, expiresAtBlock := none
        dailySpendLimit := none, windowStartBlock := 0, spentInWindow := 0 } }

def paidTransfer : Transaction :=
  (Transaction.new Crypto.sample sampleSender 5 1000 21000 0).signSample

def ownSponsorTransfer : Transaction :=
  ((Transaction.new Crypto.sample sampleSender 5 1000 21000 0).withSponsor Crypto.sample
    sampleSender).signSample

theorem paidTransfer_conserves :
    ∃ after, processTransaction Host.sample (Encounter.uncontended 0) paidTransfer funded = .ok
      () after ∧ Conserves paidTransfer funded after := by
  have done := Fallible.eq_ok_of_succeeded
    (show Fallible.succeeded
      (processTransaction Host.sample (Encounter.uncontended 0) paidTransfer funded) = true by
      decide +kernel)
  refine ⟨_, done, (processTransaction_conserves_iff rfl rfl done).mpr
    ⟨?_, ?_, ?_, .inl ⟨rfl, rfl⟩⟩⟩ <;> decide +kernel

/-- The sender that sponsors itself passes the validators and never pays the fee. -/
theorem ownSponsorTransfer_not_conserved :
    ownSponsorTransfer.verifyTxStateless Crypto.sample funded.chainId funded.evmEnabled 1 = .ok () ∧
      funded.validateTxStatefulOnly (Encounter.uncontended 0) ownSponsorTransfer 1 = .ok () ∧
      ∃ after, processTransaction Host.sample
        (Encounter.uncontended 0) ownSponsorTransfer funded = .ok () after ∧
        ¬Conserves ownSponsorTransfer funded after := by
  have done := Fallible.eq_ok_of_succeeded
    (show Fallible.succeeded
      (processTransaction Host.sample (Encounter.uncontended 0) ownSponsorTransfer funded) =
      true by decide +kernel)
  refine ⟨by decide +kernel, by decide +kernel, _, done, fun conserved => ?_⟩
  have charged := conserved.moved Transaction.sampleSender
  revert charged
  decide +kernel

end Ledger

end IronDag
