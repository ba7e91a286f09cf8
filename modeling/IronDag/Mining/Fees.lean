import IronDag.Chain.Atomicity
import IronDag.Mining.Node

namespace IronDag

open Ledger BitVec BlockFees
open Conditions hiding encounters

namespace Ledger

variable {ledger : Ledger}

theorem totalBalance_writeBalance (ledger : Ledger) (address : Address) (balance : U128)
    (nonce : U64) :
    (ledger.writeBalance address balance nonce).totalBalance + (ledger.getBalance address).toNat =
      ledger.totalBalance + balance.toNat := by
  have replaced := Movement.total_replace (fun other => (ledger.getBalance other).toNat)
    (fun other => ((ledger.writeBalance address balance nonce).getBalance other).toNat) address
    (fun other different => by rw [getBalance_writeBalance, if_neg different])
  rw [getBalance_writeBalance, if_pos rfl] at replaced
  exact replaced

/-- What the fee of a transaction takes out of all balances together. The value of a transfer is on
its way to the receiver and not counted. -/
def Turn.debited (host : Host) (turn : Turn) : Nat :=
  match privacyDataOf turn.tx host with
  | some _ => 0
  | none =>
    match turn.ledger.executorFor turn.tx with
    | some executor =>
      match turn.ledger.execute host turn.encounter executor turn.tx with
      | .error _ => 0
      | .ok (executed, _) =>
        match executed.chargeExecution turn.tx with
        | .error _ => 0
        | .ok charged => executed.totalBalance - charged.totalBalance
    | none =>
      match turn.ledger.charge turn.tx with
      | .error _ => 0
      | .ok charged => turn.ledger.totalBalance - (charged.totalBalance + turn.tx.value.toNat)

/-- The fees that the transactions of a block are debited. -/
def feesDebited (host : Host) (encounters : Nat → Encounter) (block : Block) (ledger : Ledger) :
    Nat :=
  ((trail host block encounters block.transactions ledger).map (Turn.debited host)).sum

/-- The fee a transaction is charged: nothing for a privacy transaction, and nothing for a transfer
whose sender is its sponsor, since the sponsor's charge is overwritten. -/
def feeCharged (ledger : Ledger) (host : Host) (tx : Transaction) : Nat :=
  if (privacyDataOf tx host).isSome then 0
  else if (ledger.executorFor tx).isNone ∧ tx.sponsor = some tx.from then 0
  else tx.fee.toNat

theorem totalBalance_charge (done : ledger.charge tx = .ok charged) :
    charged.totalBalance + tx.value.toNat +
      (if tx.sponsor = some tx.from then 0 else tx.fee.toNat) = ledger.totalBalance := by
  obtain ⟨covered, rest⟩ := charge_eq_ok.mp done
  have value := toNat_sub_of_le covered
  rw [le_def] at covered
  cases sponsored : tx.sponsor with
  | none =>
    rw [sponsored] at rest
    obtain ⟨payable, rfl⟩ := rest
    have fee := toNat_sub_of_le payable
    rw [le_def] at payable
    have written := totalBalance_writeBalance ledger tx.from
      (ledger.getBalance tx.from - tx.value - tx.fee)
      (Word.saturatingAdd (ledger.getNonce tx.from) 1)
    rw [if_neg (by simp)]
    omega
  | some sponsor =>
    rw [sponsored] at rest
    obtain ⟨payable, rfl⟩ := rest
    have fee := toNat_sub_of_le payable
    rw [le_def] at payable
    have first := totalBalance_writeBalance ledger sponsor (ledger.getBalance sponsor - tx.fee)
      (ledger.getNonce sponsor)
    have second := totalBalance_writeBalance
      (ledger.writeBalance sponsor (ledger.getBalance sponsor - tx.fee) (ledger.getNonce sponsor))
      tx.from (ledger.getBalance tx.from - tx.value)
      (Word.saturatingAdd (ledger.getNonce tx.from) 1)
    rw [getBalance_writeBalance] at second
    by_cases own : tx.from = sponsor
    · subst own
      rw [if_pos rfl] at second
      rw [if_pos rfl]
      omega
    · rw [if_neg own] at second
      rw [if_neg (by simpa using fun same => own same.symm)]
      omega

theorem totalBalance_chargeExecution (done : ledger.chargeExecution tx = .ok charged) :
    charged.totalBalance + tx.fee.toNat = ledger.totalBalance := by
  unfold chargeExecution at done
  split at done
  · obtain ⟨payable, done⟩ := Check.bind_eq_ok.mp done
    cases done
    rw [require_eq_ok, decide_eq_true_eq] at payable
    have fee := toNat_sub_of_le payable
    rw [le_def] at payable
    have written := totalBalance_writeBalance ledger tx.from (ledger.getBalance tx.from - tx.fee)
      (ledger.getNonce tx.from)
    omega
  · next free =>
    cases done
    rw [lt_def] at free
    simp only [ofNat_eq_ofNat, toNat_ofNat] at free
    omega

/-- What a processed transaction is debited is the fee it is charged. -/
theorem debited_eq_feeCharged {turn : Turn}
    (done : processTransaction host turn.encounter turn.tx turn.ledger = .ok () after) :
    turn.debited host = turn.ledger.feeCharged host turn.tx := by
  rw [processTransaction, Fallible.get_bind, Fallible.check_bind_eq_ok] at done
  obtain ⟨-, done⟩ := done
  unfold Turn.debited feeCharged
  cases data : privacyDataOf turn.tx host with
  | some privacyTx => rfl
  | none =>
    simp only [data] at done
    cases enabled : turn.ledger.executorFor turn.tx with
    | some executor =>
      simp only [enabled] at done
      obtain ⟨executed, execution, charged, ran, paid, -⟩ := processExecution_eq_ok.mp done
      have total := totalBalance_chargeExecution paid
      simp only [ran, paid, Option.isSome_none, Option.isNone_some, Bool.false_eq_true,
        if_false, false_and]
      omega
    | none =>
      simp only [enabled] at done
      obtain ⟨charged, charge, -, -⟩ := processTransfer_eq_ok.mp done
      have total := totalBalance_charge charge
      simp only [charge, Option.isSome_none, Option.isNone_none, Bool.false_eq_true,
        if_false, true_and]
      by_cases own : turn.tx.sponsor = some turn.tx.from
      · rw [if_pos own] at total ⊢
        omega
      · rw [if_neg own] at total ⊢
        omega

theorem feeCharged_of_frame (frame : Frame ledger other) :
    other.feeCharged host tx = ledger.feeCharged host tx := by
  have same : (other.executorFor tx).isNone = (ledger.executorFor tx).isNone := by
    unfold executorFor
    rw [frame.evmEnabled]
    split
    · rw [← Option.not_isSome, ← Option.not_isSome, frame.evmExecutor]
    · rfl
  unfold feeCharged
  rw [same]

/-- In a processed block, the fees debited are the fees charged. -/
theorem feesDebited_eq
    (done : applyTransactions host block encounters block.transactions ledger = .ok () after) :
    feesDebited host encounters block ledger =
      (block.transactions.map (ledger.feeCharged host)).sum := by
  unfold feesDebited
  nth_rewrite 2 [← trail_map_tx host block encounters block.transactions ledger]
  rw [List.map_map]
  congr 1
  apply List.map_congr_left
  intro turn member
  obtain ⟨-, processed, processing⟩ := turn_of_applyTransactions done member
  rw [debited_eq_feeCharged processing, feeCharged_of_frame (frame_of_mem_trail member)]
  rfl

end Ledger

/-- What the fee model asks of a transaction: the base fee and the tip, for all of its gas. -/
def Transaction.gasCharge (baseFee : U128) (tx : Transaction) : Nat :=
  tx.gasLimit.toNat * (baseFee.toNat + (tx.calculateEffectiveTip baseFee).toNat)

namespace BlockFees

/-- As long as the sums fit, the totals are the sums over the transactions. -/
theorem toNat_foldl_add (baseFee : U128) (transactions : List Transaction) (fees : BlockFees)
    (fits : fees.totalBaseFee.toNat + fees.totalPriorityFee.toNat +
      (transactions.map (Transaction.gasCharge baseFee)).sum < 2 ^ 128) :
    let total := transactions.foldl (add baseFee) fees
    total.totalBaseFee.toNat + total.totalPriorityFee.toNat =
      fees.totalBaseFee.toNat + fees.totalPriorityFee.toNat +
        (transactions.map (Transaction.gasCharge baseFee)).sum := by
  induction transactions generalizing fees with
  | nil => rfl
  | cons tx rest ih =>
    rw [List.map_cons, List.sum_cons] at fits ⊢
    have charge : tx.gasCharge baseFee =
        baseFee.toNat * tx.gasLimit.toNat +
          (tx.calculateEffectiveTip baseFee).toNat * tx.gasLimit.toNat := by
      rw [Transaction.gasCharge, Nat.mul_add, Nat.mul_comm, Nat.mul_comm tx.gasLimit.toNat]
    have gas : (tx.gasLimit.setWidth 128).toNat = tx.gasLimit.toNat := by
      rw [toNat_setWidth]
      exact Nat.mod_eq_of_lt (Nat.lt_trans tx.gasLimit.isLt (by decide))
    have base : (add baseFee fees tx).totalBaseFee.toNat =
        fees.totalBaseFee.toNat + baseFee.toNat * tx.gasLimit.toNat := by
      simp only [add, toNat_add, toNat_mul, gas]
      rw [Nat.mod_eq_of_lt (a := baseFee.toNat * _) (by omega)]
      exact Nat.mod_eq_of_lt (by omega)
    have priority : (add baseFee fees tx).totalPriorityFee.toNat =
        fees.totalPriorityFee.toNat +
          (tx.calculateEffectiveTip baseFee).toNat * tx.gasLimit.toNat := by
      simp only [add, toNat_add, toNat_mul, gas]
      rw [Nat.mod_eq_of_lt (a := (tx.calculateEffectiveTip baseFee).toNat * _) (by omega)]
      exact Nat.mod_eq_of_lt (by omega)
    have total := ih (add baseFee fees tx) (by omega)
    rw [List.foldl_cons]
    omega

theorem toNat_minerPriorityShare (fees : BlockFees) :
    fees.minerPriorityShare.toNat = fees.totalPriorityFee.toNat / 2 := by
  rfl

/-- The share and the burned part are all there is. -/
theorem toNat_share_add_burned {fees : BlockFees}
    (fits : fees.totalBaseFee.toNat + fees.totalPriorityFee.toNat < 2 ^ 128) :
    fees.minerPriorityShare.toNat + fees.totalBurned.toNat =
      fees.totalBaseFee.toNat + fees.totalPriorityFee.toNat := by
  have share := toNat_minerPriorityShare fees
  have other : (fees.totalPriorityFee - fees.minerPriorityShare).toNat =
      fees.totalPriorityFee.toNat - fees.minerPriorityShare.toNat := by
    apply toNat_sub_of_le
    rw [le_def]
    omega
  rw [totalBurned, toNat_add]
  omega

end BlockFees

namespace Blockchain

variable {host : Host} {conditions : Conditions} {miner : Address} {submission : BlockSubmission}
  {chain added : Blockchain}

/-- The fees of a committed block are backed: the miner gets no more than the reward and the fees
that the transactions were debited, and its share and the burned part are exactly those. `added`
is the chain with the block, `after` the chain with the miner credited. -/
structure FeesBacked (host : Host) (conditions : Conditions) (miner : Address)
    (submission : BlockSubmission) (chain added after : Blockchain) : Prop where
  credited : (after.getBalance miner).toNat ≤ (added.getBalance miner).toNat +
    ((getBlockReward submission.blockNumber submission.streamType).toNat +
      feesDebited host conditions.encounters submission.block chain.toLedger)
  split : (BlockFees.ofBlock submission.block).minerPriorityShare.toNat +
      (after.totalFeesBurned.toNat - chain.totalFeesBurned.toNat) =
    feesDebited host conditions.encounters submission.block chain.toLedger

/-- What the fee model asks of the transactions of a block, in sum. -/
def gasCharges (block : Block) : Nat :=
  (block.transactions.map (Transaction.gasCharge block.header.baseFeePerGas)).sum

theorem toNat_getBalance_creditMiner {chain : Blockchain} {miner : Address}
    {submission : BlockSubmission} : ((chain.creditMiner miner submission).getBalance miner).toNat =
      min ((chain.getBalance miner).toNat + submission.totalMinerReward.toNat) (2 ^ 128 - 1) := by
  have read : (chain.creditMiner miner submission).getBalance miner =
      Word.saturatingAdd (chain.getBalance miner) submission.totalMinerReward := by
    show (chain.toLedger.writeBalance miner _ _).getBalance miner = _
    rw [getBalance_writeBalance, if_pos rfl]
    rfl
  rw [read, Word.toNat_saturatingAdd]

theorem feesDebited_of_stored
    (stored : addBlockImpl host conditions preVerified block chain = .ok () added) :
    feesDebited host conditions.encounters block chain.toLedger =
      (block.transactions.map (chain.toLedger.feeCharged host)).sum := by
  obtain ⟨-, -, ledger, processed, -⟩ := addBlockImpl_eq_ok.mp stored
  obtain ⟨-, applied, done, -⟩ := validateAndProcessTransactions_eq_ok.mp processed
  exact feesDebited_eq done

/-- The fees of a committed block are backed exactly if the fees charged are in sum what the fee
model asks for, as long as the burned total has room for it. -/
theorem feesBacked_iff
    (committed : chain.processSubmission host conditions miner submission = (.committed, after))
    (stored : addBlockPreVerified host conditions submission.block chain = .ok () added)
    (fits : chain.totalFeesBurned.toNat + gasCharges submission.block < 2 ^ 128) :
    FeesBacked host conditions miner submission chain added after ↔
      (submission.block.transactions.map (chain.toLedger.feeCharged host)).sum =
        gasCharges submission.block := by
  obtain ⟨-, -, -, again, found, rfl⟩ := processSubmission_eq_committed.mp committed
  cases stored.symm.trans found
  have burnedBefore := totalFeesBurned_addBlockImpl stored
  have debited := feesDebited_of_stored stored
  have totals : (ofBlock submission.block).totalBaseFee.toNat +
      (ofBlock submission.block).totalPriorityFee.toNat = gasCharges submission.block := by
    have sums := toNat_foldl_add submission.block.header.baseFeePerGas submission.block.transactions
      { totalBaseFee := 0, totalPriorityFee := 0 }
        (by simpa [gasCharges] using Nat.lt_of_le_of_lt (Nat.le_add_left _ _) fits)
    simpa [ofBlock, gasCharges] using sums
  have parts := @toNat_share_add_burned (ofBlock submission.block) (by omega)
  have burned : (added.creditMiner miner submission).totalFeesBurned.toNat =
      chain.totalFeesBurned.toNat + (ofBlock submission.block).totalBurned.toNat := by
    show (Word.saturatingAdd added.totalFeesBurned _).toNat = _
    rw [burnedBefore, Word.toNat_saturatingAdd]
    omega
  constructor
  · intro backed
    have split := backed.split
    omega
  · intro same
    refine ⟨?_, by omega⟩
    have reward : submission.totalMinerReward.toNat ≤
        (getBlockReward submission.blockNumber submission.streamType).toNat +
          (ofBlock submission.block).minerPriorityShare.toNat := by
      rw [BlockSubmission.totalMinerReward, Word.toNat_saturatingAdd]
      omega
    rw [toNat_getBalance_creditMiner]
    omega

def submitted (transactions : List Transaction) : BlockSubmission where
  block := childBlock 2 transactions
  streamType := .streamA
  blockNumber := 1

/-- A transfer that offers a tip per unit of gas far above its fee. -/
def tipTransfer : Transaction :=
  let tx := { Transaction.new Crypto.sample Transaction.sampleSender 5 1000 21000 0 with
    maxFeePerGas := some 1000000000001, maxPriorityFeePerGas := some 1000000000000 }
  { tx with hash := tx.calculateHash Crypto.sample }.signSample

theorem committed_of_outcome
    (outcome : (chain.processSubmission host conditions miner submission).1 = .committed) :
    chain.processSubmission host conditions miner submission =
      (.committed, (chain.processSubmission host conditions miner submission).2) :=
  Prod.ext outcome rfl

theorem paidTransfer_feesBacked :
    ∃ added after, openedChain.processSubmission Host.sample (uncontended 1600000020) 8
        (submitted [paidTransfer]) = (.committed, after) ∧
      FeesBacked Host.sample (uncontended 1600000020) 8
        (submitted [paidTransfer]) openedChain added after := by
  have committed := committed_of_outcome
    (show (openedChain.processSubmission Host.sample (uncontended 1600000020) 8
      (submitted [paidTransfer])).1 = .committed by decide +kernel)
  obtain ⟨-, -, -, added, stored, -⟩ := processSubmission_eq_committed.mp committed
  refine ⟨added, _, committed, (feesBacked_iff committed stored ?_).mpr ?_⟩ <;> decide +kernel

/-- The miner is credited the tip although nobody was debited it. -/
theorem tipTransfer_minted : ∃ added after,
    openedChain.processSubmission Host.sample (uncontended 1600000020) 8
        (submitted [tipTransfer]) = (.committed, after) ∧
      addBlockPreVerified Host.sample (uncontended 1600000020)
        (submitted [tipTransfer]).block openedChain = .ok () added ∧
      ¬FeesBacked Host.sample (uncontended 1600000020) 8
        (submitted [tipTransfer]) openedChain added after := by
  have committed := committed_of_outcome
    (show (openedChain.processSubmission Host.sample (uncontended 1600000020) 8
      (submitted [tipTransfer])).1 = .committed by decide +kernel)
  have stored := Fallible.eq_ok_of_succeeded
    (show Fallible.succeeded (addBlockPreVerified Host.sample (uncontended 1600000020)
      (submitted [tipTransfer]).block openedChain) = true by decide +kernel)
  refine ⟨_, _, committed, stored, fun backed => ?_⟩
  have credited := backed.credited
  rw [feesDebited_of_stored stored] at credited
  revert credited
  decide +kernel

end Blockchain

end IronDag
