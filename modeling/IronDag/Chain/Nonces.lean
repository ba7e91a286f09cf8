import IronDag.Chain.Trail
import IronDag.Chain.EvmCommit
import IronDag.Lib.Tickets

namespace IronDag

open Fallible

def EvmChange.nonce : EvmChange → Nat
  | modify _ _ nonce _ _ _ => nonce
  | delete _ => 0

/-- A transaction as a ticket of its sender. -/
def Transaction.ticket (tx : Transaction) : Address × ℕ :=
  (tx.from, tx.nonce.toNat)

variable {block : Block} {address : Address}

namespace EvmExecutor.Commit

def getNonce (commit : Commit) (address : Address) : Option U64 :=
  commit.batch.bind fun batch => batch.getNonce address

section Reads

variable (commit : Commit) (written address : Address)

theorem getNonce_putBalance {balance : U128} :
    (commit.putBalance written balance).getNonce address = commit.getNonce address := by
  unfold getNonce putBalance
  cases commit.batch <;> rfl

theorem getNonce_putNonce {nonce : U64} : (commit.putNonce written nonce).getNonce address =
      if address = written then commit.batch.map fun _ => nonce else commit.getNonce address := by
  unfold getNonce putNonce
  cases commit.batch with
  | none | some batch => simp

theorem getNonce_paid {balance : U128} :
    (commit.paid written balance).getNonce address = commit.getNonce address := by
  unfold paid
  split
  · exact getNonce_putBalance _ _ _
  · rfl

theorem getNonce_coded {code : Option Bytes} :
    (commit.coded written code).getNonce address = commit.getNonce address := by
  unfold coded
  split
  · split
    · rfl
    · unfold getNonce putContractCode
      cases commit.batch <;> rfl
  · rfl

theorem getNonce_putStorage :
    (commit.putStorage written slots).getNonce address = commit.getNonce address := by
  have kept : ∀ batch : StateDatabase,
      (slots.foldl
        (fun batch slot => batch.putContractStorage written slot.1 slot.2) batch).getNonce address =
        batch.getNonce address := by
    induction slots with
    | nil => exact fun _ => rfl
    | cons slot rest ih => exact fun batch => (ih _).trans rfl
  unfold getNonce putStorage
  cases commit.batch with
  | none => rfl
  | some batch => exact kept batch

end Reads

variable {commit : Commit} {changes : List EvmChange}

theorem getNonce_apply (done : commit.apply change = some after)
    (stored : commit.batch.isSome = true) :
    change.nonce < 2 ^ 64 ∧
      (∀ address, address ≠ change.address → after.getNonce address = commit.getNonce address) ∧
      (after.getNonce change.address = some (BitVec.ofNat 64 change.nonce) ∨
        (change.nonce = 0 ∧ after.getNonce change.address = commit.getNonce change.address)) := by
  cases change with
  | delete written =>
    cases done
    dsimp only [EvmChange.address, EvmChange.nonce]
    refine ⟨by simp, fun address other => ?_, .inl ?_⟩
    · rw [getNonce_putNonce, if_neg other, getNonce_putBalance]
    · obtain ⟨batch, present⟩ := Option.isSome_iff_exists.mp stored
      rw [getNonce_putNonce]
      simp [putBalance, present]
  | modify written balance nonce code slots resetStorage =>
    rw [apply_modify_eq] at done
    split at done
    · cases done
    · next fits =>
      cases done
      have small : nonce < 2 ^ 64 := Nat.lt_of_not_le fun beyond => fits (.inr beyond)
      simp only [EvmChange.address, EvmChange.nonce, getNonce_putStorage, getNonce_coded]
      unfold counted
      split
      · refine ⟨small, fun address other => ?_, .inl ?_⟩
        · rw [getNonce_putNonce, if_neg other, getNonce_paid]
        · obtain ⟨batch, present⟩ :=
            Option.isSome_iff_exists.mp ((commit.batch_paid written).trans stored)
          rw [getNonce_putNonce, if_pos rfl, present, Option.map_some]
      · next unwritten =>
        refine ⟨small, fun address _ => getNonce_paid .., .inr ⟨?_, getNonce_paid ..⟩⟩
        have zero : ¬(0 : U64) < BitVec.ofNat 64 nonce := fun positive => unwritten (.inl positive)
        rw [BitVec.lt_def, BitVec.toNat_ofNat, Nat.mod_eq_of_lt small] at zero
        exact Nat.eq_zero_of_not_pos zero

/-- Changes that count one transaction of the sender: they give it the next nonce, and they set no
nonce below its floor. -/
structure Counts (floor : Address → ℕ) (sender : Address) (changes : List EvmChange) : Prop where
  counted : ∃ change ∈ changes, change.address = sender
  next : ∀ change ∈ changes, change.address = sender → change.nonce = floor sender + 1
  kept : ∀ change ∈ changes, floor change.address ≤ change.nonce

variable {floor : Address → ℕ}

theorem getNonce_foldlM (kept : ∀ change ∈ changes, floor change.address ≤ change.nonce)
    (done : changes.foldlM apply commit = some after) (stored : commit.batch.isSome = true) :
    after.getNonce address = commit.getNonce address ∨
      ∃ nonce, after.getNonce address = some nonce ∧ floor address ≤ nonce.toNat := by
  induction changes generalizing commit with
  | nil =>
    cases done
    exact .inl rfl
  | cons change rest ih =>
    rw [List.foldlM_cons, Option.bind_eq_bind, Option.bind_eq_some_iff] at done
    obtain ⟨middle, first, continued⟩ := done
    have present := (batch_isSome_apply first).trans stored
    obtain ⟨fits, others, own⟩ := getNonce_apply first stored
    have keptRest : ∀ change ∈ rest, floor change.address ≤ change.nonce :=
      fun change member => kept change (List.mem_cons_of_mem _ member)
    rcases ih keptRest continued present with same | later
    · rw [same]
      by_cases changed : address = change.address
      · subst changed
        rcases own with set | ⟨-, unchanged⟩
        · refine .inr ⟨_, set, ?_⟩
          rw [BitVec.toNat_ofNat, Nat.mod_eq_of_lt fits]
          exact kept change List.mem_cons_self
        · exact .inl unchanged
      · exact .inl (others address changed)
    · exact .inr later

theorem getNonce_foldlM_sender
    (next : ∀ change ∈ changes, change.address = sender → change.nonce = floor sender + 1)
    (done : changes.foldlM apply commit = some after) (stored : commit.batch.isSome = true)
    (counted : (∃ change ∈ changes, change.address = sender) ∨
      (commit.getNonce sender).map BitVec.toNat = some (floor sender + 1)) :
    (after.getNonce sender).map BitVec.toNat = some (floor sender + 1) := by
  induction changes generalizing commit with
  | nil =>
    cases done
    rcases counted with ⟨change, impossible, -⟩ | already
    · cases impossible
    · exact already
  | cons change rest ih =>
    rw [List.foldlM_cons, Option.bind_eq_bind, Option.bind_eq_some_iff] at done
    obtain ⟨middle, first, continued⟩ := done
    have present := (batch_isSome_apply first).trans stored
    obtain ⟨fits, others, own⟩ := getNonce_apply first stored
    apply ih (fun change member => next change (List.mem_cons_of_mem _ member)) continued present
    by_cases mine : change.address = sender
    · right
      have value := next change List.mem_cons_self mine
      rcases own with set | ⟨zero, -⟩
      · rw [← mine, set, Option.map_some, BitVec.toNat_ofNat, Nat.mod_eq_of_lt fits, value, mine]
      · omega
    · rw [others sender fun same => mine same.symm]
      rcases counted with ⟨chosen, member, about⟩ | already
      · rcases List.mem_cons.mp member with rfl | later
        · exact absurd about mine
        · exact .inl ⟨chosen, later, about⟩
      · exact .inr already

end EvmExecutor.Commit

namespace Ledger

open EvmExecutor (Commit)

def nonces (ledger : Ledger) (address : Address) : ℕ :=
  (ledger.getNonce address).toNat

variable {host : Host} {block : Block} {ledger : Ledger}

theorem nonces_eq_of_getNonce {other : Ledger} (same : other.getNonce = ledger.getNonce) :
    other.nonces = ledger.nonces := by
  funext address
  rw [nonces, same, nonces]

/-- An execution whose changes of nonces reach the chain: the executor writes to the database that
the chain reads its nonces from, and the interpreter counts one transaction of the sender. -/
structure CountsExecution (host : Host) (encounter : Encounter) (ledger : Ledger)
    (executor : EvmExecutor) (tx : Transaction) : Prop where
  persistent : executor.persistent = true
  database : ledger.database.isSome = true
  verkleState : ledger.verkleState = none
  interpreter : ∀ success,
    host.interpreter (executor.backend ledger.database tx ledger.highestBlockNumber
      (ledger.lastTimestamp encounter.now)) tx = .ok success →
        Commit.Counts ledger.nonces tx.from success.changes

/-- With a database in the place of the Verkle state, a nonce is read from it first. -/
theorem getNonce_of_database (noVerkle : ledger.verkleState = none) : ledger.getNonce address =
      ((ledger.database.bind fun database => database.getNonce address).or
        ((ledger.accounts.lookup address).map AccountState.nonce)).getD 0 := by
  unfold getNonce
  rw [noVerkle]

theorem nonces_execute
    (enabled : ledger.executorFor tx = some executor)
    (counts : CountsExecution host encounter ledger executor tx)
    (ran : ledger.execute host encounter executor tx = .ok (after, execution)) :
    (∀ address, ledger.nonces address ≤ after.nonces address) ∧
      after.nonces tx.from = ledger.nonces tx.from + 1 := by
  obtain ⟨success, commit, answered, folded, written⟩ :=
    exists_commit_of_execute (contract_of_executorFor enabled) ran
  rw [EvmExecutor.store, if_pos counts.persistent] at folded
  rw [if_pos counts.persistent] at written
  have changes := counts.interpreter success answered
  have noVerkle : after.verkleState = none := by
    rw [written]
    exact counts.verkleState
  have read : ∀ address, after.getNonce address =
      ((commit.getNonce address).or
        ((ledger.accounts.lookup address).map AccountState.nonce)).getD 0 := by
    intro address
    rw [getNonce_of_database noVerkle, written]
    rfl
  constructor
  · intro address
    rcases Commit.getNonce_foldlM changes.kept folded counts.database with
      same | ⟨nonce, set, above⟩
    · rw [nonces, nonces, read, same, getNonce_of_database counts.verkleState]
      exact Nat.le_refl _
    · rw [nonces.eq_def after, read, set]
      exact above
  · have sender :=
      Commit.getNonce_foldlM_sender changes.next folded counts.database (.inl changes.counted)
    obtain ⟨nonce, set, value⟩ := Option.map_eq_some_iff.mp sender
    rw [nonces.eq_def after, read, set]
    exact value

theorem getNonce_chargeExecution (done : ledger.chargeExecution tx = .ok charged) :
    charged.getNonce = ledger.getNonce := by
  unfold chargeExecution at done
  split at done
  · obtain ⟨-, written⟩ := Check.bind_eq_ok.mp done
    cases written
    funext address
    exact getNonce_writeBalance_same _ _ _ _
  · cases done
    rfl

theorem nonces_transferred {charged : Ledger} (done : ledger.charge tx = .ok charged)
    (account : ledger.walletHandled encounter tx = false)
    (left : ledger.getNonce tx.from ≠ BitVec.allOnes 64) :
    (∀ address, ledger.nonces address ≤ (transferred ledger charged encounter tx).nonces address) ∧
      (transferred ledger charged encounter tx).nonces tx.from = ledger.nonces tx.from + 1 := by
  have sender : (transferred ledger charged encounter tx).nonces tx.from =
      ledger.nonces tx.from + 1 := by
    rw [nonces, getNonce_transferred_of_counted done (.inr account)]
    exact Word.saturatingAdd_one_toNat.mpr left
  refine ⟨fun address => ?_, sender⟩
  by_cases own : address = tx.from
  · subst own
    omega
  · rw [nonces, nonces, transferred, getNonce_settle_other _ _ _ _ own,
      getNonce_charge_other done own]

/-- A transaction that is counted by the account of its sender: without privacy data, not from a
registered wallet and below the last nonce; if it goes to the executor, by an execution that
counts it. -/
structure Turn.Counts (host : Host) (turn : Turn) : Prop where
  plain : privacyDataOf turn.tx host = none
  account : ∀ registry, turn.ledger.walletRegistry = some registry →
    registry.lookup turn.tx.from = none
  below : turn.tx.nonce ≠ BitVec.allOnes 64
  execution : ∀ executor, turn.ledger.executorFor turn.tx = some executor →
    CountsExecution host turn.encounter turn.ledger executor turn.tx

/-- A result that has lowered no nonce and, as a success, has counted one transaction. -/
structure Counted (ledger : Ledger) (sender : Address)
    (result : EStateM.Result ChainFault Ledger Unit) : Prop where
  forward : ∀ address, ledger.nonces address ≤ (finalState result).nonces address
  counted : succeeded result = true → (finalState result).nonces sender = ledger.nonces sender + 1

theorem counted_of_error (forward : ∀ address, ledger.nonces address ≤ after.nonces address) :
    Counted ledger sender (.error fault after) :=
  ⟨forward, fun impossible => by cases impossible⟩

theorem counted_processTransfer (account : ledger.walletHandled encounter tx = false)
    (left : ledger.getNonce tx.from ≠ BitVec.allOnes 64) :
    Counted ledger tx.from (processTransfer encounter tx ledger) := by
  refine ofExcept_bind_cases (fun _ => counted_of_error fun _ => Nat.le_refl _)
    fun charged charging => ?_
  obtain ⟨forward, sender⟩ := nonces_transferred charging account left
  refine ofExcept_bind_cases (fun _ => counted_of_error forward) fun _ _ => ?_
  have same := nonces_eq_of_getNonce
    (getNonce_storeReceipt (transferred ledger charged encounter tx) tx.hash transferReceipt)
  exact ⟨same ▸ forward, fun _ => same ▸ sender⟩

theorem counted_processExecution (enabled : ledger.executorFor tx = some executor)
    (counts : CountsExecution host encounter ledger executor tx) :
    Counted ledger tx.from (processExecution host encounter executor tx ledger) := by
  refine ofExcept_bind_cases (fun _ => counted_of_error fun _ => Nat.le_refl _) ?_
  rintro ⟨executed, execution⟩ running
  obtain ⟨forward, sender⟩ := nonces_execute enabled counts running
  refine ofExcept_bind_cases (fun _ => counted_of_error forward) fun charged charging => ?_
  have same : (charged.storeReceipt tx.hash (executionReceipt tx execution)).nonces =
      executed.nonces :=
    nonces_eq_of_getNonce ((getNonce_storeReceipt _ _ _).trans (getNonce_chargeExecution charging))
  exact ⟨same ▸ forward, fun _ => same ▸ sender⟩

variable {turn : Turn}

theorem Turn.Counts.walletHandled (counts : turn.Counts host) :
    turn.ledger.walletHandled turn.encounter turn.tx = false := by
  unfold Ledger.walletHandled registryIf
  split
  · cases configured : turn.ledger.walletRegistry with
    | none => rfl
    | some registry => simp [WalletRegistry.isContractWallet, counts.account registry configured]
  · rfl

theorem Turn.Counts.currentNonce (counts : turn.Counts host) :
    turn.ledger.currentNonce turn.encounter turn.tx = turn.ledger.getNonce turn.tx.from := by
  unfold Ledger.currentNonce registryIf
  split
  · next wallet found =>
    obtain ⟨registry, configured, registered⟩ := Option.bind_eq_some_iff.mp found
    split at configured
    · rw [counts.account registry configured] at registered
      cases registered
    · cases configured
  · rfl

theorem checkNonce_eq_ok : ledger.checkNonce encounter tx = .ok () ↔
    tx.nonce = ledger.currentNonce encounter tx := by
  unfold checkNonce
  by_cases same : tx.nonce = ledger.currentNonce encounter tx
  · simp [same]
  · rw [if_neg same]
    split <;> simp [invalidTransaction, same]

/-- What is validated carries the nonce that is due and the hash of its contents. -/
theorem checkNonce_of_validateInBlock (plain : privacyDataOf tx host = none)
    (valid : ledger.validateInBlock host encounter block tx = .ok ()) :
    ledger.checkNonce encounter tx = .ok () := by
  simp only [validateInBlock, Check.bind_eq_ok] at valid
  obtain ⟨-, -, valid⟩ := valid
  split at valid
  · exact (passedWhole_of_validate plain valid).nonce
  · simp only [validateTxStatefulOnly, Check.bind_eq_ok] at valid
    exact valid.2.1

theorem counted_processTransaction (counts : turn.Counts host)
    (left : turn.ledger.getNonce turn.tx.from ≠ BitVec.allOnes 64) :
    Counted turn.ledger turn.tx.from
      (processTransaction host turn.encounter turn.tx turn.ledger) := by
  refine ofExcept_bind_cases (fun _ => counted_of_error fun _ => Nat.le_refl _) fun _ _ => ?_
  rw [counts.plain]
  cases enabled : turn.ledger.executorFor turn.tx with
  | some executor => exact counted_processExecution enabled (counts.execution executor enabled)
  | none => exact counted_processTransfer counts.walletHandled left

theorem nonces_record {ledger : Ledger} {tx : Transaction} :
    ((ledger.recordSpentOutput tx block.hash block.header.blockNumber).recordSponsorSpend tx
      block.header.blockNumber).nonces = ledger.nonces := by
  unfold recordSponsorSpend
  split <;> rfl

/-- A turn draws the nonce of its sender, if its transaction is executed. -/
theorem drawn_of_turn (counts : turn.Counts host) : Drawn turn.ledger.nonces
    (turn.outcome host block).nonces
      (if turn.executed host block then [turn.tx.ticket] else []) := by
  unfold Turn.outcome Turn.executed
  cases validating : turn.ledger.validateInBlock host turn.encounter block turn.tx with
  | error fault =>
    have stopped : applyTransaction host turn.encounter block turn.tx turn.ledger =
        .error fault turn.ledger := by
      rw [applyTransaction, get_bind, check_bind_eq_error]
      exact .inl ⟨validating, rfl⟩
    rw [stopped]
    exact Drawn.refl _
  | ok valid =>
    have due : turn.tx.nonce = turn.ledger.getNonce turn.tx.from := by
      rw [← counts.currentNonce]
      exact checkNonce_eq_ok.mp (checkNonce_of_validateInBlock counts.plain validating)
    obtain ⟨forward, counted⟩ := counted_processTransaction counts (due ▸ counts.below)
    cases processing : processTransaction host turn.encounter turn.tx turn.ledger with
    | error fault left =>
      have stopped :
          applyTransaction host turn.encounter block turn.tx turn.ledger = .error fault left := by
        rw [applyTransaction, get_bind, check_bind_of_ok validating]
        exact bind_of_error processing
      rw [processing] at forward
      rw [stopped]
      exact Drawn.none forward
    | ok value processed =>
      rw [processing] at forward counted
      rw [applyTransaction_eq_ok.mpr ⟨validating, processed, processing, rfl⟩, finalState,
        nonces_record, succeeded, Transaction.ticket, due]
      refine Drawn.one forward ?_
      have next := counted rfl
      rw [finalState] at next
      omega

/-- The executed ones among the transactions of some turns. -/
def executedIn (host : Host) (block : Block) (turns : List Turn) : List Transaction :=
  (turns.filter (Turn.executed host block)).map Turn.tx

theorem executedIn_append {front back : List Turn} :
    executedIn host block (front ++ back) =
      executedIn host block front ++ executedIn host block back := by
  simp [executedIn]

theorem nonces_pruneSpentOutputs {height : U64} :
    (ledger.pruneSpentOutputs height).nonces = ledger.nonces := by
  unfold pruneSpentOutputs
  split <;> rfl

/-- Turns draw the nonces of the transactions that are executed in them. -/
def DrawnIn (host : Host) (block : Block) (before : Ledger) (turns : List Turn) (after : Ledger) :
    Prop :=
  Drawn before.nonces after.nonces ((executedIn host block turns).map Transaction.ticket)

theorem composes_drawnIn {host : Host} : Composes (DrawnIn host block) where
  refl _ := Drawn.refl _
  append first second := by
    rw [DrawnIn, executedIn_append, List.map_append]
    exact first.append second
  prune ledger height := by
    rw [DrawnIn, nonces_pruneSpentOutputs]
    exact Drawn.refl _

theorem drawnIn_turn (counts : turn.Counts host) :
    DrawnIn host block turn.ledger [turn] (turn.outcome host block) := by
  have drawn := @drawn_of_turn host block turn counts
  rw [DrawnIn, executedIn, List.filter_singleton]
  cases executed : turn.executed host block with
  | true =>
    rw [executed] at drawn
    exact drawn
  | false =>
    rw [executed] at drawn
    exact drawn

/-- The hash of a transaction is compared with its contents, before the block or in its turn. -/
theorem hash_of_executed (member : turn ∈ turnsOf host encounters block ledger)
    (plain : privacyDataOf turn.tx host = none) (executed : turn.executed host block = true) :
    turn.tx.hash = turn.tx.calculateHash host.crypto := by
  have checked : turn.tx.checkHash host.crypto = .ok () := by
    unfold turnsOf at member
    cases passing : ledger.prePass host block with
    | error fault =>
      rw [passing] at member
      cases member
    | ok passed =>
      rw [passing] at member
      by_cases special : isSpecial host turn.tx = true
      · obtain ⟨valid, -⟩ := applyTransaction_eq_ok.mp (eq_ok_of_succeeded executed)
        simp only [validateInBlock, Check.bind_eq_ok, if_pos special] at valid
        exact (passedWhole_of_validate plain valid.2.2).hash
      · have carried : turn.tx ∈ block.transactions := tx_mem_of_reached member
        have stateless := Check.forM_eq_ok.mp passing turn.tx (by simp [carried, special])
        exact (Transaction.passedStateless_of_verify stateless).hash
  simpa [Transaction.checkHash] using checked

end Ledger

namespace Blockchain

variable {chain : Blockchain}

theorem nonces_commitBlock {chain : Blockchain} {conditions : Conditions} :
    (chain.commitBlock conditions block).nonces = chain.nonces := by
  apply Ledger.nonces_eq_of_getNonce
  funext address
  exact getNonce_commitBlock chain address

/-- A payment counts one transaction of the payer, where the cache is seen. -/
theorem nonces_executeRecurring (left : chain.getNonce recurring.from ≠ BitVec.allOnes 64)
    (address : Address) :
    chain.nonces address ≤ (executeRecurring crypto block chain recurring).nonces address := by
  have fits : (chain.getNonce recurring.from).toNat + 1 < 2 ^ 64 := by
    have last : (chain.getNonce recurring.from).toNat ≠ 2 ^ 64 - 1 := fun full =>
      left (BitVec.eq_of_toNat_eq (full.trans BitVec.toNat_allOnes.symm))
    omega
  unfold executeRecurring
  dsimp only
  split
  · exact Nat.le_refl _
  · generalize debiting : chain.cacheAccount recurring.from _ = debited
    have debit : chain.nonces address ≤ debited.nonces address := by
      rcases getNonce_cacheAccount chain recurring.from address
        { balance := chain.getBalance recurring.from - recurring.value
          nonce := chain.getNonce recurring.from + 1 }
        with same | ⟨rfl, counted⟩
      · rw [← debiting, Ledger.nonces, Ledger.nonces, same]
      · rw [← debiting, Ledger.nonces, Ledger.nonces, counted, Word.toNat_add_one fits]
        exact Nat.le_succ _
    refine Nat.le_trans debit (Nat.le_of_eq ?_)
    rcases getNonce_cacheAccount debited recurring.to address
      { balance := chain.getBalance recurring.to + recurring.value
        nonce := debited.getNonce recurring.to }
      with same | ⟨rfl, kept⟩
    · exact (congrArg BitVec.toNat same).symm
    · exact (congrArg BitVec.toNat kept).symm

end Blockchain

end IronDag
