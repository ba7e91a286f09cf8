import IronDag.Account.PoolBacking
import IronDag.Chain.EvmCommit
import IronDag.Mining.Turns

namespace IronDag

open Fallible PrivacyPool Blockchain EvmExecutor Run

namespace Ledger

variable {ledger after : Ledger}

def poolBalance (ledger : Ledger) : U128 :=
  ledger.getBalance privacyPoolAddress

/-- The account of the pool covers what is deposited and not withdrawn. -/
def PoolBacked (commitment : Hash → Hash) (nullifiers : Set Hash) (ledger : Ledger) : Prop :=
  ledger.privacyPool.Backed commitment nullifiers ledger.poolBalance

theorem PoolBacked.of_same (backed : ledger.PoolBacked commitment nullifiers)
    (pool : after.privacyPool = ledger.privacyPool)
    (balance : after.poolBalance = ledger.poolBalance) :
    after.PoolBacked commitment nullifiers := by
  rw [PoolBacked, pool, balance]
  exact backed

/-- A transaction that takes nothing from the account of the pool: not sent or sponsored by it,
without an overflow of its balance, with the denomination for every commitment that is registered,
and executed without a change to that account. -/
structure Turn.SparesPool (host : Host) (turn : Turn) : Prop where
  sender : turn.tx.from ≠ privacyPoolAddress
  sponsor : turn.tx.sponsor ≠ some privacyPoolAddress
  credited : turn.tx.to = privacyPoolAddress →
    turn.ledger.poolBalance.toNat + turn.tx.value.toNat < 2 ^ 128
  deposited : turn.tx.to = privacyPoolAddress → turn.tx.data.length = 32 →
    commitmentOf turn.tx.data ∉ turn.ledger.privacyPool.commitmentSet →
      turn.ledger.privacyPool.denomination ≤ turn.tx.value
  execution : ∀ executor success, turn.ledger.executorFor turn.tx = some executor →
    host.interpreter (executor.backend turn.ledger.database turn.tx turn.ledger.highestBlockNumber
      (turn.ledger.lastTimestamp turn.encounter.now)) turn.tx = .ok success →
    ∀ change ∈ success.changes, change.address ≠ privacyPoolAddress

theorem privacyPool_settle {charged : Ledger} {encounter : Encounter} {tx : Transaction}
    {nonce : U64} : (charged.settle encounter tx nonce).privacyPool =
      if tx.to = privacyPoolAddress ∧ tx.data.length = 32 then
        (charged.privacyPool.deposit (commitmentOf tx.data) charged.latestBlockNumber).getD
          charged.privacyPool
      else charged.privacyPool := by
  have counted : ∀ settled : Ledger, (settled.countNonce encounter tx nonce).privacyPool =
      settled.privacyPool := by
    intro settled
    unfold countNonce
    split <;> rfl
  have credited : (charged.creditReceiver tx).privacyPool = charged.privacyPool ∧
      (charged.creditReceiver tx).latestBlockNumber = charged.latestBlockNumber :=
    ⟨paid_creditReceiver.same privacyPool fun _ _ _ _ => rfl,
      paid_creditReceiver.same Ledger.latestBlockNumber fun _ _ _ _ => rfl⟩
  rw [settle, counted, depositCommitment]
  split
  · rw [credited.1, credited.2]
  · exact credited.1

variable {turn : Turn} (spares : turn.SparesPool host)
  (backed : turn.ledger.PoolBacked commitment nullifiers)

include spares

/-- A transfer leaves the account of the pool with what it brings. -/
theorem toNat_poolBalance_transferred (done : turn.ledger.charge turn.tx = .ok charged) :
    (transferred turn.ledger charged turn.encounter turn.tx).poolBalance.toNat =
      turn.ledger.poolBalance.toNat +
        if turn.tx.to = privacyPoolAddress then turn.tx.value.toNat else 0 := by
  rw [poolBalance, transferred, getBalance_settle, getBalance_charge_other done spares.sender.symm,
    if_neg spares.sponsor, sub_zero]
  by_cases pool : turn.tx.to = privacyPoolAddress
  · have paid : turn.tx.to ≠ Address.zero ∧ privacyPoolAddress = turn.tx.to := by
      rw [pool]
      exact ⟨by decide, rfl⟩
    rw [if_pos paid, if_pos pool]
    exact Nat.mod_eq_of_lt (spares.credited pool)
  · rw [if_neg (fun paid => pool paid.2.symm), if_neg pool, add_zero]
    rfl

include backed

theorem poolBacked_transferred (done : turn.ledger.charge turn.tx = .ok charged) :
    (transferred turn.ledger charged turn.encounter turn.tx).PoolBacked commitment nullifiers := by
  have balance := toNat_poolBalance_transferred spares done
  have more : turn.ledger.poolBalance ≤
      (transferred turn.ledger charged turn.encounter turn.tx).poolBalance := by
    rw [BitVec.le_def, balance]
    exact Nat.le_add_right _ _
  rw [PoolBacked, transferred, privacyPool_settle,
    (paid_charge done).same privacyPool fun _ _ _ _ => rfl, ← transferred]
  by_cases registers : turn.tx.to = privacyPoolAddress ∧ turn.tx.data.length = 32
  · rw [if_pos registers]
    cases deposited :
      turn.ledger.privacyPool.deposit (commitmentOf turn.tx.data) charged.latestBlockNumber with
    | none => exact backed.mono more
    | some pool =>
      have fresh := (deposit_eq_some.mp deposited).1
      have paid := BitVec.le_def.mp (spares.deposited registers.1 registers.2 fresh)
      refine backed.deposit deposited ?_
      rw [balance, if_pos registers.1]
      omega
  · rw [if_neg registers]
    exact backed.mono more

theorem poolBacked_processTransfer :
    (finalState (processTransfer turn.encounter turn.tx turn.ledger)).PoolBacked commitment
      nullifiers := by
  apply finalState_ofExcept_bind backed
  intro charged done
  have moved := poolBacked_transferred spares backed done
  apply finalState_ofExcept_bind moved
  intro _ _
  exact moved.of_same rfl (congrFun (getBalance_storeReceipt _ _ _) _)

omit spares backed in
theorem getBalance_execute_of_unlisted (enabled : ledger.executorFor tx = some executor)
    (unlisted : ∀ success,
      host.interpreter (executor.backend ledger.database tx ledger.highestBlockNumber
      (ledger.lastTimestamp encounter.now)) tx = .ok success →
        ∀ change ∈ success.changes, change.address ≠ address)
    (ran : ledger.execute host encounter executor tx = .ok (after, execution)) :
    after.privacyPool = ledger.privacyPool ∧
      after.getBalance address = ledger.getBalance address := by
  obtain ⟨success, commit, answered, folded, rfl⟩ :=
    exists_commit_of_execute (contract_of_executorFor enabled) ran
  refine ⟨rfl, ?_⟩
  unfold getBalance
  by_cases persistent : executor.persistent = true
  · rw [store, if_pos persistent] at folded
    have elsewhere : address ∉ success.changes.map EvmChange.address := by
      intro listed
      obtain ⟨change, member, same⟩ := List.mem_map.mp listed
      exact unlisted success answered change member same
    have frame : ∀ state change after, Commit.apply state change = some after →
        ∀ other, other ≠ EvmChange.address change →
          Commit.storedBalance after other = Commit.storedBalance state other :=
      fun _ _ _ done _ other => Commit.storedBalance_apply_of_ne done other
    have stored := KeyedChanges.held_of_notMem frame folded elsewhere
    simp only [Commit.storedBalance] at stored
    rw [if_pos persistent, stored]
  · rw [if_neg persistent]

theorem poolBacked_processExecution (enabled : turn.ledger.executorFor turn.tx = some executor) :
    (finalState (processExecution host turn.encounter executor turn.tx turn.ledger)).PoolBacked
      commitment nullifiers := by
  apply finalState_ofExcept_bind backed
  rintro ⟨executed, execution⟩ ran
  obtain ⟨pool, balance⟩ := getBalance_execute_of_unlisted enabled
    (fun success answered => spares.execution executor success enabled answered) ran
  have kept : executed.PoolBacked commitment nullifiers := backed.of_same pool balance
  apply finalState_ofExcept_bind kept
  intro charged paid
  have charge : charged.PoolBacked commitment nullifiers := by
    unfold chargeExecution at paid
    split at paid
    · obtain ⟨-, written⟩ := Check.bind_eq_ok.mp paid
      cases written
      refine kept.of_same rfl ?_
      rw [poolBalance, getBalance_writeBalance, if_neg spares.sender.symm]
      rfl
    · cases paid
      exact kept
  exact charge.of_same rfl (congrFun (getBalance_storeReceipt _ _ _) _)

theorem poolBacked_processTransaction :
    (finalState (processTransaction host turn.encounter turn.tx turn.ledger)).PoolBacked commitment
      nullifiers := by
  apply finalState_ofExcept_bind backed
  intro _ _
  cases privacyDataOf turn.tx host with
  | some privacyTx =>
    show (processPrivacyTransaction turn.ledger privacyTx).PoolBacked commitment nullifiers
    unfold processPrivacyTransaction
    split <;> exact backed
  | none =>
    cases enabled : turn.ledger.executorFor turn.tx with
    | some executor => exact poolBacked_processExecution spares backed enabled
    | none => exact poolBacked_processTransfer spares backed

theorem poolBacked_outcome : (turn.outcome host block).PoolBacked commitment nullifiers := by
  apply finalState_ofExcept_bind backed
  intro _ _
  have processed := poolBacked_processTransaction spares backed
  cases processing : processTransaction host turn.encounter turn.tx turn.ledger with
  | error fault left =>
    rw [processing] at processed
    rw [bind_of_error processing]
    exact processed
  | ok value done =>
    rw [processing] at processed
    rw [bind_of_ok processing]
    unfold recordSponsorSpend
    split <;> exact processed

end Ledger

namespace Blockchain

/-- A payment that does not come from the pool and does not overflow its balance. -/
def SparesPool (chain : Blockchain) (recurring : RecurringTransaction) : Prop :=
  recurring.from ≠ privacyPoolAddress ∧
    (recurring.to = privacyPoolAddress → chain.poolBalance.toNat + recurring.value.toNat < 2 ^ 128)

theorem poolBalance_executeRecurring (spares : chain.SparesPool recurring) :
    chain.poolBalance ≤ (executeRecurring crypto block chain recurring).poolBalance := by
  unfold executeRecurring
  dsimp only
  split
  · exact BitVec.le_refl _
  · have debit : ∀ account, (chain.cacheAccount recurring.from account).poolBalance =
        chain.poolBalance := by
      intro account
      rw [Ledger.poolBalance, getBalance_cacheAccount, if_neg fun own => spares.1 own.1.symm]
      rfl
    show _ ≤ Ledger.getBalance (cacheAccount _ recurring.to _).toLedger privacyPoolAddress
    rw [getBalance_cacheAccount]
    split
    · next own =>
      have fits : (chain.getBalance privacyPoolAddress).toNat + recurring.value.toNat < 2 ^ 128 :=
        spares.2 own.1.symm
      rw [BitVec.le_def, ← own.1, BitVec.toNat_add, Nat.mod_eq_of_lt fits]
      exact Nat.le_add_right _ _
    · exact BitVec.le_of_eq (debit _).symm

end Blockchain

/-- What keeps the pool backed, whatever the turns. -/
theorem traced_poolBacked (commitment : Hash → Hash) (nullifiers : Set Hash) :
    Traced fun before _ after => before.PoolBacked commitment nullifiers →
      after.PoolBacked commitment nullifiers where
  refl _ := id
  append first second := second ∘ first
  prune ledger height := by
    unfold Ledger.pruneSpentOutputs
    split <;> exact id
  commit chain conditions block backed :=
    backed.of_same rfl (chain.getBalance_commitBlock privacyPoolAddress conditions block)
  credit chain miner submission backed := by
    refine Backed.mono backed ?_
    show chain.getBalance privacyPoolAddress ≤
      (chain.toLedger.setBalance miner _).getBalance privacyPoolAddress
    rw [Ledger.getBalance_setBalance]
    split
    · next own =>
      rw [own]
      show _ ≤ (Word.saturatingAdd (chain.getBalance miner) submission.totalMinerReward).toNat
      rw [Word.toNat_saturatingAdd]
      omega
    · exact BitVec.le_refl _

/-- No transaction and no payment of the call takes anything from the pool. -/
structure Step.SparesPool (host : Host) (step : Step) (chain : Blockchain) : Prop where
  turns : ∀ turn ∈ step.turns host chain, turn.SparesPool host
  payments : ∀ entry ∈ step.payments host chain, entry.1.SparesPool entry.2

theorem Step.poolBacked_apply {step : Step}
    (spares : step.SparesPool host chain)
    (backed : chain.toLedger.PoolBacked commitment nullifiers) :
    (step.apply host chain).toLedger.PoolBacked commitment nullifiers := by
  refine (traced_poolBacked commitment nullifiers).apply (fun turn reached => ?_)
    (fun entry due => ?_) backed
  · exact fun before => Ledger.poolBacked_outcome (spares.turns turn reached) before
  · intro before
    have pool : (executeRecurring host.crypto step.call.block entry.1 entry.2).privacyPool =
        entry.1.privacyPool := by
      unfold executeRecurring
      dsimp only
      split <;> rfl
    rw [Ledger.PoolBacked, pool]
    exact Backed.mono before (poolBalance_executeRecurring (spares.payments entry due))

namespace Blockchain

variable {chain : Blockchain}

def spendNullifier (chain : Blockchain) (nullifier : Hash) : Blockchain :=
  { chain with
    privacyPool :=
      { chain.privacyPool with
        spentNullifiers := insert nullifier chain.privacyPool.spentNullifiers } }

def payOut (chain : Blockchain) (recipient : Address) (amount : U128) : Blockchain :=
  let debited := chain.cacheAccount privacyPoolAddress
    { balance := chain.poolBalance - amount, nonce := chain.getNonce privacyPoolAddress }
  debited.cacheAccount recipient
    { balance := debited.getBalance recipient + amount, nonce := debited.getNonce recipient }

/-- A withdrawal is refused by the pool, stopped for want of balance with the nullifier spent, or
paid. -/
theorem poolWithdraw_cases {chain : Blockchain} {proof : Option Bytes} :
    (∃ fault, poolWithdraw nullifier recipient proof chain = .error fault chain) ∨
      (nullifier ∉ chain.privacyPool.spentNullifiers ∧ chain.privacyPool.requireProof = false ∧
        ((chain.poolBalance < chain.privacyPool.denomination ∧
            ∃ fault, poolWithdraw nullifier recipient proof chain = .error fault
              (chain.spendNullifier nullifier)) ∨
          (chain.privacyPool.denomination ≤ chain.poolBalance ∧
            poolWithdraw nullifier recipient proof chain =
              .ok chain.privacyPool.denomination
                ((chain.spendNullifier nullifier).payOut recipient
                  chain.privacyPool.denomination)))) := by
  rw [poolWithdraw, get_bind]
  cases withdrawing : chain.privacyPool.withdraw nullifier proof with
  | error reason => exact .inl ⟨_, rfl⟩
  | ok paid =>
    obtain ⟨amount, pool⟩ := paid
    obtain ⟨unspent, unproved, rfl, rfl⟩ := withdraw_eq_ok.mp withdrawing
    refine .inr ⟨unspent, unproved, ?_⟩
    by_cases short : chain.poolBalance < chain.privacyPool.denomination
    · have read : (chain.spendNullifier nullifier).getBalance privacyPoolAddress <
          chain.privacyPool.denomination := short
      exact .inl ⟨short, _, congrFun (if_pos read) _⟩
    · have read : ¬(chain.spendNullifier nullifier).getBalance privacyPoolAddress <
          chain.privacyPool.denomination :=
        short
      exact .inr ⟨BitVec.not_lt.mp short, congrFun (if_neg read) _⟩

theorem poolBalance_payOut (chain : Blockchain) (recipient : Address)
    (covered : amount ≤ chain.poolBalance) :
    chain.poolBalance.toNat ≤ (chain.payOut recipient amount).poolBalance.toNat + amount.toNat := by
  have difference : (chain.poolBalance - amount).toNat + amount.toNat =
      chain.poolBalance.toNat := by
    rw [BitVec.toNat_sub_of_le covered]
    exact Nat.sub_add_cancel covered
  -- the second write is seen exactly if the first one is
  generalize debiting : chain.cacheAccount privacyPoolAddress
    { balance := chain.poolBalance - amount, nonce := chain.getNonce privacyPoolAddress } = debited
  have seen : debited.cachesBalance privacyPoolAddress =
      chain.cachesBalance privacyPoolAddress := by
    rw [← debiting]
    rfl
  have debit : debited.poolBalance =
      if chain.cachesBalance privacyPoolAddress then chain.poolBalance - amount else
        chain.poolBalance := by
    rw [← debiting, Ledger.poolBalance.eq_def (toLedger _), getBalance_cacheAccount]
    simp only [true_and]
    rfl
  have credit : (chain.payOut recipient amount).poolBalance =
      if privacyPoolAddress = recipient ∧ chain.cachesBalance privacyPoolAddress then
        debited.getBalance recipient + amount
      else debited.poolBalance := by
    rw [payOut, debiting, Ledger.poolBalance.eq_def (toLedger _), getBalance_cacheAccount, seen]
    rfl
  cases cached : chain.cachesBalance privacyPoolAddress with
  | false =>
    rw [credit, debit, cached]
    simp
  | true =>
    rw [cached] at debit
    by_cases own : privacyPoolAddress = recipient
    · have restored : debited.getBalance recipient + amount = chain.poolBalance := by
        rw [← own]
        exact (congrArg (· + amount) debit).trans (sub_add_cancel _ _)
      rw [credit, if_pos ⟨own, cached⟩, restored]
      exact Nat.le_add_right _ _
    · rw [credit, if_neg fun both => own both.1, debit]
      exact Nat.le_of_eq difference.symm

/-- What a withdrawal owes: if it is paid, its nullifier is newly spent and belongs to a deposit
that no nullifier spent before belongs to; if it fails, it has changed nothing. -/
structure WithdrawalAccounted (commitment : Hash → Hash) (chain : Blockchain) (nullifier : Hash)
    (recipient : Address) (proof : Option Bytes) : Prop where
  consumed : ∀ amount after, poolWithdraw nullifier recipient proof chain = .ok amount after →
    nullifier ∉ chain.privacyPool.spentNullifiers ∧ nullifier ∈ after.privacyPool.spentNullifiers ∧
      ∃ deposit ∈ chain.privacyPool.deposits, deposit.commitment = commitment nullifier ∧
        ∀ other ∈ chain.privacyPool.spentNullifiers, commitment other ≠ deposit.commitment
  undone : ∀ fault after, poolWithdraw nullifier recipient proof chain = .error fault after →
    after.privacyPool.spentNullifiers = chain.privacyPool.spentNullifiers ∧
      after.poolBalance = chain.poolBalance ∧
      after.getBalance recipient = chain.getBalance recipient

/-- A withdrawal that the pool refuses, or whose nullifier belongs to a deposit. -/
def EntitlesTo (commitment : Hash → Hash) (chain : Blockchain) (nullifier : Hash) : Prop :=
  nullifier ∈ chain.privacyPool.spentNullifiers ∨ chain.privacyPool.requireProof = true ∨
    commitment nullifier ∈ chain.privacyPool.commitmentSet

variable (separated : Set.InjOn commitment nullifiers) (known : nullifier ∈ nullifiers)
  (backed : chain.toLedger.PoolBacked commitment nullifiers)
    (entitled : chain.EntitlesTo commitment nullifier)

include separated known backed entitled

/-- With a deposit for its nullifier, a withdrawal is never short of balance. -/
theorem poolWithdraw_of_entitled :
    (∃ fault, poolWithdraw nullifier recipient proof chain = .error fault chain) ∨
      (nullifier ∉ chain.privacyPool.spentNullifiers ∧
        commitment nullifier ∈ chain.privacyPool.commitmentSet ∧
        chain.privacyPool.denomination ≤ chain.poolBalance ∧
        poolWithdraw nullifier recipient proof chain = .ok chain.privacyPool.denomination
          ((chain.spendNullifier nullifier).payOut recipient chain.privacyPool.denomination)) := by
  rcases poolWithdraw_cases with refused | ⟨unspent, unproved, outcome⟩
  · exact .inl refused
  · have member : commitment nullifier ∈ chain.privacyPool.commitmentSet :=
      (entitled.resolve_left unspent).resolve_left (by simp [unproved])
    have covered := backed.denomination_le (backed.spent_lt separated known unspent member)
    rcases outcome with ⟨short, -⟩ | ⟨-, paid⟩
    · exact absurd short (BitVec.not_lt.mpr covered)
    · exact .inr ⟨unspent, member, covered, paid⟩

theorem withdrawalAccounted_of_entitled :
    chain.WithdrawalAccounted commitment nullifier recipient proof := by
  rcases poolWithdraw_of_entitled separated known backed entitled with
    ⟨fault, refused⟩ | ⟨unspent, member, -, paid⟩
  · refine ⟨fun amount after done => ?_, fun fault after done => ?_⟩
    · rw [refused] at done
      cases done
    · rw [refused] at done
      cases done
      exact ⟨rfl, rfl, rfl⟩
  · refine ⟨fun amount after done => ?_, fun fault after done => ?_⟩
    · rw [paid] at done
      cases done
      exact ⟨unspent, Finset.mem_insert_self _ _,
        backed.exists_own_deposit separated known unspent member⟩
    · rw [paid] at done
      cases done

theorem poolBacked_poolWithdraw :
    (finalState (poolWithdraw nullifier recipient proof chain)).toLedger.PoolBacked commitment
      nullifiers := by
  rcases poolWithdraw_of_entitled separated known backed entitled with
    ⟨fault, refused⟩ | ⟨unspent, member, covered, paid⟩
  · rw [refused]
    exact backed
  · rw [paid]
    have left := poolBalance_payOut (chain.spendNullifier nullifier) recipient covered
    exact Backed.withdraw backed known unspent member left

end Blockchain

/-- What moves the balance of the pool. -/
inductive PoolOperation where
  | call (step : Step)
  | withdraw (nullifier : Hash) (recipient : Address) (proof : Option Bytes)

namespace PoolOperation

def apply (host : Host) (operation : PoolOperation) (chain : Blockchain) : Blockchain :=
  match operation with
  | call step => step.apply host chain
  | withdraw nullifier recipient proof =>
    finalState (poolWithdraw nullifier recipient proof chain)

/-- The operation takes nothing from the pool that it is not entitled to. -/
def SparesPool (host : Host) (commitment : Hash → Hash) (chain : Blockchain) : PoolOperation → Prop
  | call step => step.SparesPool host chain
  | withdraw nullifier _ _ => chain.EntitlesTo commitment nullifier

/-- A withdrawal is accounted for. -/
def Accounted (commitment : Hash → Hash) (chain : Blockchain) : PoolOperation → Prop
  | call _ => True
  | withdraw nullifier recipient proof =>
    chain.WithdrawalAccounted commitment nullifier recipient proof

/-- The nullifiers that the withdrawals of a run present. -/
def nullifiers (operations : List PoolOperation) : Set Hash :=
  {nullifier | ∃ recipient proof, withdraw nullifier recipient proof ∈ operations}

theorem poolBacked_apply (separated : Set.InjOn commitment (nullifiers operations))
    (member : operation ∈ operations)
    (backed : chain.toLedger.PoolBacked commitment (nullifiers operations))
    (spares : operation.SparesPool host commitment chain) :
    (operation.apply host chain).toLedger.PoolBacked commitment (nullifiers operations) := by
  cases operation with
  | call step => exact step.poolBacked_apply spares backed
  | withdraw nullifier recipient proof =>
    exact poolBacked_poolWithdraw separated ⟨recipient, proof, member⟩ backed spares

/-- A run that starts with an unused pool and takes nothing from it without a deposit keeps it
solvent, and accounts for every withdrawal. -/
theorem solvent_of_run {host : Host} {secret : Hash → Hash} {start : Blockchain}
    {operations : List PoolOperation} (unused : start.privacyPool.Unused)
    (separated : Set.InjOn (commitmentFor host.crypto secret) (nullifiers operations))
    (spares : ∀ entry ∈ visited (apply host) start operations,
      entry.2.SparesPool host (commitmentFor host.crypto secret) entry.1) :
    (∀ chain ∈ states (apply host) start operations, chain.privacyPool.Solvent chain.poolBalance) ∧
      ∀ entry ∈ visited (apply host) start operations,
        entry.2.Accounted (commitmentFor host.crypto secret) entry.1 := by
  have backed : ∀ chain ∈ states (apply host) start operations,
      chain.toLedger.PoolBacked (commitmentFor host.crypto secret) (nullifiers operations) :=
    invariant_states (fun chain operation backed (met : operation ∈ operations ∧
          operation.SparesPool host (commitmentFor host.crypto secret) chain) =>
        poolBacked_apply separated met.1 backed met.2)
      unused.backed fun entry visited => ⟨mem_inputs_of_visited visited, spares entry visited⟩
  refine ⟨fun chain reached => (backed chain reached).solvent, ?_⟩
  rintro ⟨chain, operation⟩ visited
  have member : operation ∈ operations := mem_inputs_of_visited visited
  have reached : chain ∈ states (apply host) start operations :=
    List.mem_append_left _ (List.mem_map_of_mem visited)
  cases operation with
  | call step => trivial
  | withdraw nullifier recipient proof =>
    exact withdrawalAccounted_of_entitled separated ⟨recipient, proof, member⟩
      (backed chain reached) (spares _ visited)

/-- A node without blocks whose sample sender has two coins. -/
def depositorChain : Blockchain :=
  { new with
    toLedger :=
      { Ledger.new with
        accounts := (∅ : Table Address AccountState).insert Transaction.sampleSender
          { balance := 2000000000000000000, nonce := 0 } } }

/-- A transfer to the pool with the commitment for the nullifier 9 and the secret 4. -/
def depositOf (value : U128) : Transaction :=
  (Transaction.withData Crypto.sample Transaction.sampleSender privacyPoolAddress value 21000 0
    (Bytes.be (commitmentFor Crypto.sample (fun _ => 4) 9)) 21000).signSample

/-- The genesis block and a block with a deposit. -/
def depositing (value : U128) : List PoolOperation :=
  (addGenesisAnd (childBlock 2 [depositOf value])).map .call

def depositedChain (value : U128) : Blockchain :=
  run (apply Host.sample) depositorChain (depositing value)

def depositAndWithdraw (value : U128) : List PoolOperation :=
  depositing value ++ [.withdraw 9 7 none]

/-- What has to be looked at for a plain transfer. -/
def plainTurn (turn : Ledger.Turn) : Bool :=
  decide (turn.tx.from ≠ privacyPoolAddress) && decide (turn.tx.sponsor = none) &&
    decide (turn.ledger.poolBalance.toNat + turn.tx.value.toNat < 2 ^ 128) &&
    decide (turn.ledger.privacyPool.denomination ≤ turn.tx.value) &&
      (turn.ledger.executorFor turn.tx).isNone

theorem sparesPool_of_plainTurn (plain : plainTurn turn = true) : turn.SparesPool host := by
  simp only [plainTurn, Bool.and_eq_true, decide_eq_true_eq, Option.isNone_iff_eq_none] at plain
  obtain ⟨⟨⟨⟨sender, unsponsored⟩, fits⟩, paid⟩, native⟩ := plain
  refine ⟨sender, ?_, fun _ => fits, fun _ _ _ => paid, ?_⟩
  · rw [unsponsored]
    exact fun impossible => by cases impossible
  · intro executor success enabled
    rw [native] at enabled
    cases enabled

/-- What has to be looked at in the run. -/
def plainOperation (chain : Blockchain) : PoolOperation → Bool
  | call step =>
    (step.turns Host.sample chain).all plainTurn && (step.payments Host.sample chain).isEmpty
  | withdraw nullifier _ _ =>
    decide (commitmentFor Crypto.sample (fun _ => 4) nullifier ∈ chain.privacyPool.commitmentSet)

theorem sparesPool_of_plainOperation (plain : plainOperation chain operation = true) :
    operation.SparesPool Host.sample (commitmentFor Crypto.sample fun _ => 4) chain := by
  cases operation with
  | call step =>
    rw [plainOperation, Bool.and_eq_true, List.all_eq_true, List.isEmpty_iff] at plain
    refine ⟨fun turn reached => sparesPool_of_plainTurn (plain.1 turn reached), ?_⟩
    rw [plain.2]
    intro entry impossible
    cases impossible
  | withdraw nullifier recipient proof => exact .inr (.inr (of_decide_eq_true plain))

theorem depositAndWithdraw_solvent :
    (∃ after, poolWithdraw 9 7 none (depositedChain 1000000000000000000) = .ok
      1000000000000000000 after) ∧
      (∀ chain ∈ states (apply Host.sample) depositorChain (depositAndWithdraw 1000000000000000000),
        chain.privacyPool.Solvent chain.poolBalance) ∧
      ∀ entry ∈ visited (apply Host.sample) depositorChain (depositAndWithdraw 1000000000000000000),
        entry.2.Accounted (commitmentFor Crypto.sample fun _ => 4) entry.1 := by
  have checked :
      ((visited (apply Host.sample) depositorChain (depositAndWithdraw 1000000000000000000)).all
      fun entry => plainOperation entry.1 entry.2) = true := by decide +kernel
  refine ⟨⟨_, eq_ok_of_returned (by decide +kernel)⟩,
    @solvent_of_run Host.sample (fun _ => 4) depositorChain
    (depositAndWithdraw 1000000000000000000) ⟨rfl, rfl, rfl⟩ ?_ ?_⟩
  · have only : ∀ nullifier ∈ nullifiers (depositAndWithdraw 1000000000000000000),
        nullifier = 9 := by
      rintro nullifier ⟨recipient, proof, listed⟩
      have same : nullifier = 9 ∧ recipient = 7 ∧ proof = none := by
        simpa [depositAndWithdraw, depositing, addGenesisAnd] using listed
      exact same.1
    intro one first two second _
    rw [only one first, only two second]
  · intro entry visited
    exact sparesPool_of_plainOperation (List.all_eq_true.mp checked entry visited)

/-- A deposit without value is registered, and then the withdrawal fails with its nullifier
spent. -/
theorem worthless_deposit_registered : depositorChain.privacyPool.Unused ∧
      (∃ chain ∈ states (apply Host.sample) depositorChain (depositAndWithdraw 0),
        ¬chain.privacyPool.Solvent chain.poolBalance) ∧
      ∃ entry ∈ visited (apply Host.sample) depositorChain (depositAndWithdraw 0),
        ∀ secret, ¬entry.2.Accounted (commitmentFor Crypto.sample secret) entry.1 := by
  refine ⟨⟨rfl, rfl, rfl⟩, ?_, ?_⟩
  · have found :
        ((states (apply Host.sample) depositorChain (depositAndWithdraw 0)).any fun chain =>
        !decide (chain.privacyPool.Solvent chain.poolBalance)) = true := by decide +kernel
    obtain ⟨chain, reached, insolvent⟩ := List.any_eq_true.mp found
    exact ⟨chain, reached, by simpa using insolvent⟩
  · have visited : (depositedChain 0, withdraw 9 7 none) ∈
        visited (apply Host.sample) depositorChain (depositAndWithdraw 0) :=
          mem_visited_of_split rfl
    refine ⟨(depositedChain 0, withdraw 9 7 none), visited, fun secret accounted => ?_⟩
    dsimp only [Accounted] at accounted
    have failed := eq_error_of_failure (show failure (poolWithdraw 9 7 none (depositedChain 0)) =
        some (.error
          (.invalidTransaction "Privacy pool account balance inconsistent with pool state")) by
            decide +kernel)
    have same := (accounted.undone _ _ failed).1
    revert same
    decide +kernel

end PoolOperation

end IronDag
