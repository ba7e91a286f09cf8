import Mathlib.Algebra.Order.BigOperators.Group.Finset
import IronDag.Lib.Run
import IronDag.Mining.Fees
import IronDag.Sharding.Backing

/-!
Conservation of value over all shards: the balances of the shards and the receipts in transit are
together worth what the balances were at the start, less the fees that were charged and not
refunded.
-/

namespace IronDag

open ShardEvent Multiset Crypto Run

namespace ShardManager

def total (manager : ShardManager) : ℕ :=
  ∑ shardId ∈ Finset.range manager.config.shardCount,
    (manager.shards shardId).blockchain.toLedger.totalBalance

end ShardManager

def valueOf (receipts : Multiset Carried) : ℕ :=
  (receipts.map fun receipt => receipt.2.toNat).sum

/-- The fee that an event charges or, if negative, gives back. -/
def ShardEvent.fee : Option ShardEvent → ℤ
  | some (.debit _ crossTx) => crossTx.tx.fee.toNat
  | some (.retryRefund crossTx _) | some (.timeoutRefund _ crossTx) => -crossTx.tx.fee.toNat
  | _ => 0

namespace ShardSystem

/-- The balances of all shards and the value of the receipts in transit. -/
def worth (crypto : Crypto) (system : ShardSystem) : ℕ :=
  system.manager.total + valueOf (system.inTransit crypto)

/-- The fees that the steps of a run debited, less those they refunded. -/
def feesDebited (crypto : Crypto) (start : ShardSystem) (steps : List ShardStep) : ℤ :=
  ((visited (apply crypto) start steps).map fun entry => fee (entry.1.event entry.2)).sum

/-- The steps that conserve value. -/
def Conserving (crypto : Crypto) (system : ShardSystem) : ShardStep → Prop
  | .addTransaction tx _ => ∀ crossTx, system.manager.crossShardTxs.lookup tx.hash = some crossTx →
      crossTx.tx = tx
  | .advance (.checked _ crossTx) _ =>
    crossTx.tx.value.toNat + crossTx.tx.fee.toNat ≤
      (system.manager.getBalance crossTx.sourceShard crossTx.tx.from).toNat
  | .advance (.retryRefunding _ crossTx _ _) _ =>
    system.worth crypto + crossTx.tx.fee.toNat < 2 ^ 128
  | .advance .timingOut access => system.manager.timedOutTxs access.iteration access.now = []
  | .replayWal _ => system.manager.wal.getD [] = []
  | .crash => False
  | _ => True

end ShardSystem

@[simp] theorem valueOf_add {front back : Multiset Carried} :
    valueOf (front + back) = valueOf front + valueOf back := by
  simp [valueOf]

@[simp] theorem valueOf_zero : valueOf 0 = 0 := rfl

@[simp] theorem valueOf_singleton {receipt : Carried} : valueOf {receipt} = receipt.2.toNat := by
  simp [valueOf]

theorem CrossShardTransaction.toNat_totalCost {crossTx : CrossShardTransaction}
    (fits : crossTx.tx.value.toNat + crossTx.tx.fee.toNat < 2 ^ 128) :
    crossTx.totalCost.toNat = crossTx.tx.value.toNat + crossTx.tx.fee.toNat := by
  rw [totalCost, Word.toNat_saturatingAdd, min_eq_left (by omega)]

namespace ShardManager

variable {manager : ShardManager}

theorem Steady.total (steady : Steady before after) : after.total = before.total := by
  unfold ShardManager.total
  rw [steady.config]
  exact Finset.sum_congr rfl fun shardId _ => by rw [steady.chains]

theorem total_setBalance {shardId : ℕ} (known : shardId < manager.config.shardCount)
    (address : Address) (balance : U128) :
    (manager.setBalance shardId address balance).total +
      (manager.getBalance shardId address).toNat = manager.total + balance.toNat := by
  have replaced := @Custody.sum_replace _ _ _ _
    (fun id => (manager.shards id).blockchain.toLedger.totalBalance)
    (fun id =>
      ((manager.setBalance shardId address balance).shards id).blockchain.toLedger.totalBalance)
    shardId (Finset.mem_range.mpr known) fun other _ different => by
      simp [setBalance, modifyShard, different]
  have written := (manager.shards shardId).blockchain.toLedger.totalBalance_writeBalance
    address balance ((manager.shards shardId).blockchain.toLedger.cachedNonce address)
  simp only [setBalance, modifyShard, Function.update_self] at replaced
  simp only [total, setBalance, modifyShard, getBalance,
    Blockchain.setBalance, Ledger.setBalance] at replaced written ⊢
  omega

theorem total_addBalance (known : shardId < manager.config.shardCount)
    (fits : (manager.getBalance shardId address).toNat + amount.toNat < 2 ^ 128) :
    (manager.addBalance shardId address amount).total = manager.total + amount.toNat := by
  have replaced :=
    total_setBalance known address (Word.saturatingAdd (manager.getBalance shardId address) amount)
  rw [Word.toNat_saturatingAdd] at replaced
  rw [addBalance, if_pos known]
  omega

theorem getBalance_le_total (known : shardId < manager.config.shardCount) (address : Address) :
    (manager.getBalance shardId address).toNat ≤ manager.total := by
  have inShard : (manager.getBalance shardId address).toNat ≤
      (manager.shards shardId).blockchain.toLedger.totalBalance :=
    Finset.single_le_sum
      (f := fun other => ((manager.shards shardId).blockchain.getBalance other).toNat)
      (fun _ _ => Nat.zero_le _) (Finset.mem_univ address)
  have inAll : (manager.shards shardId).blockchain.toLedger.totalBalance ≤ manager.total :=
    Finset.single_le_sum (f := fun id => (manager.shards id).blockchain.toLedger.totalBalance)
      (fun _ _ => Nat.zero_le _) (Finset.mem_range.mpr known)
  exact inShard.trans inAll

theorem total_refund (known : shardId < manager.config.shardCount)
    (cost : crossTx.tx.value.toNat + crossTx.tx.fee.toNat < 2 ^ 128)
    (fits : manager.total + (crossTx.tx.value.toNat + crossTx.tx.fee.toNat) < 2 ^ 128) :
    (manager.refund shardId crossTx).total =
      manager.total + (crossTx.tx.value.toNat + crossTx.tx.fee.toNat) := by
  have held := getBalance_le_total known crossTx.tx.from
  rw [← crossTx.toNat_totalCost cost] at fits ⊢
  exact total_addBalance known (by omega)

/-- A debit that the balance covers takes the value and the fee. -/
theorem total_debit (known : crossTx.sourceShard < manager.config.shardCount)
    (covered : crossTx.tx.value.toNat + crossTx.tx.fee.toNat ≤
      (manager.getBalance crossTx.sourceShard crossTx.tx.from).toNat) :
    (manager.debit crossTx).total + (crossTx.tx.value.toNat + crossTx.tx.fee.toNat) =
      manager.total := by
  have cost := crossTx.toNat_totalCost (by omega)
  have replaced := total_setBalance known crossTx.tx.from
    (Word.saturatingSub (manager.getBalance crossTx.sourceShard crossTx.tx.from) crossTx.totalCost)
  rw [Word.toNat_saturatingSub] at replaced
  rw [debit]
  omega

end ShardManager

namespace ShardSystem

variable {crypto : Crypto} {system : ShardSystem}

/-- Every receipt that may still be refunded can be refunded in full. -/
structure Backed (system : ShardSystem) : Prop where
  routed : system.manager.Routed
  queued : ∀ entry ∈ system.manager.retryQueue, system.manager.Backs entry.toReceipt
  supported : ∀ task ∈ system.tasks, system.manager.Supports task

variable {manager : ShardManager}

section

variable (backed : system.Backed)

include backed

theorem Backed.of_retains (retains : system.manager.Retains manager)
    (queue : ∀ entry ∈ manager.retryQueue, entry ∈ system.manager.retryQueue) :
    Backed { system with manager } where
  routed := retains.routed backed.routed
  queued := fun entry member => (backed.queued entry (queue entry member)).retained retains
  supported := fun task running => (backed.supported task running).retained retains

theorem Backed.spawn (supported : system.manager.Supports task) : (system.spawn task).Backed where
  routed := backed.routed
  queued := backed.queued
  supported := fun other running => by
    rcases mem_cons.mp running with rfl | earlier
    · exact supported
    · exact backed.supported other earlier

theorem Backed.processCrossShardTransaction (txHash : Hash) :
    (system.processCrossShardTransaction txHash).Backed := by
  unfold ShardSystem.processCrossShardTransaction
  split
  · rename_i crossTx found
    exact backed.spawn ⟨⟨crossTx, found, rfl⟩, backed.routed txHash crossTx found⟩
  · exact backed

theorem Backed.recv (shardId : ℕ) : (system.recv shardId).Backed := by
  unfold ShardSystem.recv
  split
  · split
    · exact backed
    · rename_i message rest _
      have taken : Backed { system with manager := { system.manager with
          channels := Function.update system.manager.channels shardId rest } } :=
        backed.of_retains (.of_same rfl rfl) fun _ member => member
      apply taken.spawn
      cases message <;> trivial
  · exact backed

theorem Backed.tick (now : Instant) : (system.tick now).Backed := by
  unfold ShardSystem.tick
  split
  · exact backed
  · have taken : Backed { system with manager := { system.manager with
        retryQueue := system.manager.retryQueue.dropWhile (ShardManager.isDue now) } } :=
      backed.of_retains (.of_same rfl rfl) fun _ member => List.dropWhile_sublist _ |>.subset member
    exact taken.spawn fun entry member =>
      (backed.queued entry (List.takeWhile_sublist _ |>.subset member)).retained (.of_same rfl rfl)

theorem Backed.advance (task : ShardTask) (access : ShardAccess)
    (met : system.Conserving crypto (.advance task access)) :
    (system.advance crypto task access).Backed := by
  unfold ShardSystem.advance
  split
  · rename_i running
    have supported := backed.supported task running
    have outcome := system.manager.outcome_advance crypto access task
    have retains := outcome.retains
    have next := outcome.supports supported (fun txHash crossTx checked => by
        subst checked
        exact Nat.lt_of_le_of_lt met (BitVec.isLt _))
      (fun timing => by
        subst timing
        exact met)
    refine ⟨retains.routed backed.routed, fun entry member => ?_, ?_⟩
    · rcases outcome.retryQueue supported entry member with queued | new
      · exact (backed.queued entry queued).retained retains
      · exact new.retained retains
    · exact Custody.forall_replace
        (fun other member => (backed.supported other member).retained retains)
        fun other member => (next other member).retained retains
  · exact backed

theorem Backed.apply (met : system.Conserving crypto step) :
    (ShardSystem.apply crypto step system).Backed := by
  cases step with
  | addTransaction tx now =>
    refine backed.of_retains (ShardManager.steady_addTransaction now met).toRetains
      fun entry member => ?_
    simp only [ShardManager.addTransaction] at member
    split at member <;> exact member
  | registerMined tx now =>
    refine backed.of_retains (ShardManager.steady_registerMined tx now).toRetains
      fun entry member => ?_
    simp only [ShardManager.registerMined] at member
    split at member <;> exact member
  | processCrossShardTransaction txHash => exact backed.processCrossShardTransaction txHash
  | sendStateSync accepting targetShard shardId blockNumber =>
    refine backed.of_retains (ShardManager.steady_sendStateSync _ _ _ _).toRetains
      fun entry member => ?_
    simp only [ShardManager.sendStateSync] at member
    split at member <;> exact member
  | recv shardId => exact backed.recv shardId
  | tick now => exact backed.tick now
  | advance task access => exact backed.advance task access met
  | replayWal accepting =>
    have empty : system.manager.replayWal accepting = system.manager := by
      rw [ShardManager.replayWal, met]
      rfl
    simpa only [ShardSystem.apply, empty] using backed
  | crash => exact met.elim

end

theorem worth_of_steady (steady : system.manager.Steady manager)
    (carried : manager.carried = system.manager.carried) :
    worth crypto { system with manager } = system.worth crypto := by
  simp only [worth, inTransit, steady.total, carried]

/-- What a receipt in transit is worth is part of the whole. -/
theorem value_le_worth (running : receipt ∈ system.inTransit crypto) :
    system.manager.total + receipt.2.toNat ≤ system.worth crypto := by
  obtain ⟨rest, split⟩ := exists_cons_of_mem running
  rw [worth, split, ← singleton_add, valueOf_add, valueOf_singleton]
  omega

theorem mem_inTransit_of_task (running : task ∈ system.tasks)
    (carries : receipt ∈ task.carried crypto) : receipt ∈ system.inTransit crypto :=
  mem_add.mpr (.inr (mem_bind.mpr ⟨task, running, carries⟩))

/-- The worth of everything changes as the balances do and as receipts are created and settled. -/
theorem worth_replaced {task : ShardTask} (access : ShardAccess) (running : task ∈ system.tasks) :
    (system.advance crypto task access).worth crypto +
        valueOf (settled (system.manager.event task)) + system.manager.total =
      system.worth crypto + valueOf (created crypto (system.manager.event task)) +
        (system.manager.advance crypto access task).1.total := by
  have moved := congrArg valueOf (@inTransit_advance crypto system task access running)
  have manager : (system.advance crypto task access).manager =
      (system.manager.advance crypto access task).1 := by
    rw [advance, if_pos running]
  rw [valueOf_add, valueOf_add] at moved
  simp only [worth, manager]
  omega

section

variable (backed : system.Backed) (bounded : system.worth crypto < 2 ^ 128)

include backed bounded

/-- An access changes the worth of everything by the fee that it charges or gives back. -/
theorem worth_advance (running : task ∈ system.tasks)
    (met : system.Conserving crypto (.advance task access)) :
    ((system.advance crypto task access).worth crypto : ℤ) + fee (system.manager.event task) =
      system.worth crypto := by
  have supported := backed.supported task running
  have replaced := @worth_replaced crypto system task access running
  cases happens : system.manager.event task with
  | none =>
    have same := ((system.manager.outcome_advance crypto access task).steady happens).total
    simp only [happens, settled, created] at replaced
    simp only [fee]
    omega
  | some event =>
    rw [happens] at replaced
    cases task with
    | checked txHash crossTx =>
      cases happens
      have taken := ShardManager.total_debit supported.known met
      simp only [ShardManager.advance, settled, created,
        valueOf_zero, valueOf_singleton] at replaced
      simp only [fee]
      omega
    | crediting receiver entry entries stillPending =>
      cases happens
      have carries : entry.carried ∈
          (ShardTask.crediting receiver entry entries stillPending).carried crypto := by
        simp [ShardTask.carried]
      have fits := value_le_worth (mem_inTransit_of_task running carries)
      replace fits : system.manager.total + entry.value.toNat < 2 ^ 128 := fits.trans_lt bounded
      have known := system.manager.getShardForAddress_lt crypto entry.to
      have held := ShardManager.getBalance_le_total known entry.to
      have added : (system.manager.processReceipt crypto entry).total =
          system.manager.total + entry.value.toNat :=
        ShardManager.total_addBalance known (by omega)
      simp only [ShardManager.advance, settled, created, valueOf_zero, valueOf_singleton,
        added, PendingReceiptEntry.carried] at replaced
      simp only [fee]
      omega
    | retryFailing now entry entries =>
      obtain ⟨crossTx, found, -⟩ := (supported entry List.mem_cons_self).recorded
      simp [ShardManager.event, ShardManager.hasCrossShardTransaction, found] at happens
    | retryRefunding now crossTx entry entries =>
      cases happens
      obtain ⟨⟨same, cost, known⟩, -⟩ := supported
      have limit : system.worth crypto + crossTx.tx.fee.toNat < 2 ^ 128 := met
      have carries : entry.toReceipt.carried ∈
          (ShardTask.retryRefunding now crossTx entry entries).carried crypto := by
        simp [ShardTask.carried]
      have fits := value_le_worth (mem_inTransit_of_task running carries)
      simp only [Receipt.carried, ← same] at fits
      have added := ShardManager.total_refund known cost (by omega)
      simp only [ShardManager.advance, settled, created, valueOf_zero, valueOf_singleton,
        added, Receipt.carried, ← same] at replaced
      simp only [fee]
      omega
    | timeoutRefunding refunds =>
      obtain rfl : refunds = [] := supported
      cases happens
    | _ => cases happens

theorem worth_apply (met : system.Conserving crypto step) :
    ((apply crypto step system).worth crypto : ℤ) + fee (system.event step) =
      system.worth crypto := by
  have unmoved {after : ShardSystem} (same : after.worth crypto = system.worth crypto) :
      (after.worth crypto : ℤ) + fee none = system.worth crypto := by
    rw [same]
    exact add_zero _
  cases step with
  | addTransaction tx now =>
    exact unmoved (worth_of_steady (ShardManager.steady_addTransaction now met)
      (ShardManager.carried_addTransaction crypto))
  | registerMined tx now =>
    exact unmoved (worth_of_steady (ShardManager.steady_registerMined tx now)
      (ShardManager.carried_registerMined crypto))
  | processCrossShardTransaction txHash =>
    rw [worth, apply, inTransit_processCrossShardTransaction]
    simp only [processCrossShardTransaction]
    split <;> rfl
  | sendStateSync accepting targetShard shardId blockNumber =>
    exact unmoved
      (worth_of_steady
        (ShardManager.steady_sendStateSync _ _ _ _) ShardManager.carried_sendStateSync)
  | recv shardId =>
    rw [worth, apply, inTransit_recv]
    simp only [recv]
    split
    · split <;> rfl
    · rfl
  | tick now =>
    rw [worth, apply, inTransit_tick]
    simp only [tick]
    split <;> rfl
  | advance task access =>
    by_cases running : task ∈ system.tasks
    · simpa only [apply, event, if_pos running] using worth_advance backed bounded running met
    · simp only [apply, event, if_neg running]
      exact unmoved (by rw [advance, if_neg running])
  | replayWal accepting =>
    have empty : system.manager.replayWal accepting = system.manager := by
      rw [ShardManager.replayWal, met]
      rfl
    exact unmoved (by simp only [apply, empty])
  | crash => exact met.elim

theorem bounded_apply
    (met : system.Conserving crypto step) : (apply crypto step system).worth crypto < 2 ^ 128 := by
  have changed := worth_apply backed bounded met
  suffices limit : (system.worth crypto : ℤ) - fee (system.event step) < 2 ^ 128 by omega
  cases step with
  | advance task access =>
    simp only [event]
    split
    · rename_i running
      cases task with
      | retryRefunding now crossTx entry entries =>
        have limit : system.worth crypto + crossTx.tx.fee.toNat < 2 ^ 128 := met
        simp only [ShardManager.event, fee]
        omega
      | retryFailing now entry entries =>
        simp only [ShardManager.event]
        split <;> simp only [fee] <;> omega
      | timeoutRefunding refunds =>
        obtain rfl : refunds = [] := backed.supported _ running
        simp only [ShardManager.event, fee]
        omega
      | _ => simp only [ShardManager.event, fee]; omega
    · simp only [fee]
      omega
  | _ => simp only [event, fee]; omega

end

theorem worth_run {start : ShardSystem} (backed : start.Backed)
    (bounded : start.worth crypto < 2 ^ 128)
    (met : ∀ entry ∈ visited (apply crypto) start steps, entry.1.Conserving crypto entry.2) :
    ((run (apply crypto) start steps).worth crypto : ℤ) + feesDebited crypto start steps =
      start.worth crypto := by
  induction steps generalizing start with
  | nil => exact add_zero _
  | cons step rest ih =>
    have first : start.Conserving crypto step := met (start, step) List.mem_cons_self
    have changed := worth_apply backed bounded first
    have later := ih (backed.apply first) (bounded_apply backed bounded first) fun entry found =>
      met entry (List.mem_cons_of_mem _ found)
    simp only [feesDebited, visited_cons, List.map_cons, List.sum_cons, run_cons] at later ⊢
    omega

/-- A manager that no transaction has reached yet. -/
structure Quiet (manager : ShardManager) : Prop where
  channels : ∀ shardId, manager.channels shardId = []
  unregistered : manager.crossShardTxs = ∅
  retries : manager.retryQueue = []
  pending : manager.pendingReceipts = []

theorem Quiet.backed (quiet : Quiet manager) : (start manager).Backed where
  routed := fun txHash crossTx found => by
    rw [start, quiet.unregistered] at found
    cases found
  queued := fun entry member => by
    rw [start, quiet.retries] at member
    cases member
  supported := fun task running => absurd running (notMem_zero task)

theorem Quiet.worth (quiet : Quiet manager) : (start manager).worth crypto = manager.total := by
  simp [ShardSystem.worth, start, inTransit, ShardManager.carried, quiet.channels, quiet.retries,
    quiet.pending, channelCarried]

/-- In every run of conserving steps, the balances and the receipts in transit are worth the initial
balances less the fees debited. -/
theorem worth_of_conserving_run {manager : ShardManager} (quiet : Quiet manager)
    (bounded : manager.total < 2 ^ 128) (steps : List ShardStep)
    (met : ∀ entry ∈ visited (apply crypto) (start manager) steps,
      entry.1.Conserving crypto entry.2) :
    ((run (apply crypto) (start manager) steps).worth crypto : ℤ) =
      manager.total - feesDebited crypto (start manager) steps := by
  have initial : (start manager).worth crypto = manager.total := quiet.worth
  have conserved := worth_run quiet.backed (by rwa [initial]) met
  omega

theorem total_new (config : ShardConfig) (shardsExist : 0 < config.shardCount)
    (wal : Option (List Receipt)) : (ShardManager.new config shardsExist wal).total = 0 := by
  refine Finset.sum_eq_zero fun shardId _ => Finset.sum_eq_zero fun address _ => ?_
  rfl

theorem total_setBalance_new (shardsExist : 0 < config.shardCount) {wal : Option (List Receipt)}
    (known : shardId < config.shardCount) {address : Address} {balance : U128} :
    ((ShardManager.new config shardsExist wal).setBalance shardId address balance).total =
      balance.toNat := by
  have replaced := @ShardManager.total_setBalance (ShardManager.new config shardsExist wal) shardId
    known address balance
  have nothing :
      ((ShardManager.new config shardsExist wal).getBalance shardId address).toNat = 0 := rfl
  rw [total_new] at replaced
  omega

theorem total_funded : funded.total = 5000 := total_setBalance_new (by decide) (by decide)

theorem worth_deliveredTransfer :
    ((run (apply sample) (start funded) deliveredTransfer).worth sample : ℤ) = 5000 - 50 := by
  have quiet : Quiet funded := ⟨fun _ => rfl, rfl, rfl, rfl⟩
  have met : ∀ entry ∈ visited (apply sample) (start funded) deliveredTransfer,
      entry.1.Conserving sample entry.2 := by
    intro entry found
    simp only [deliveredTransfer, visited_cons, visited_nil, List.mem_cons,
      List.not_mem_nil, or_false] at found
    rcases found with
      rfl | rfl | rfl | rfl | rfl | rfl | rfl | rfl | rfl | rfl | rfl | rfl | rfl | rfl | rfl
    · intro crossTx registered
      cases registered
    · trivial
    · trivial
    · simp only [Conserving]
      decide +kernel
    all_goals trivial
  have fees : feesDebited sample (start funded) deliveredTransfer = 50 := by decide +kernel
  have conserved :=
    worth_of_conserving_run quiet (by rw [total_funded]; decide) deliveredTransfer met
  rwa [total_funded, fees] at conserved

def timedOutTransfer : List ShardStep :=
  [.addTransaction crossShardTransfer 0, .tick (300 * Instant.second),
    .advance (.retrying (300 * Instant.second) []) (accessAt 300),
    .advance .timingOut (accessAt 300),
    .advance (.timeoutRefunding [(crossShardTransfer.hash, transferRecord)]) (accessAt 300)]

/-- A refund without a debit: the sender, who owned nothing, owns the value and the fee. -/
theorem timedOutTransfer_creates_value :
    let manager := ShardManager.new twoShards (by decide) none
    Quiet manager ∧ manager.total < 2 ^ 128 ∧
      ¬ ((run (apply sample) (start manager) timedOutTransfer).worth sample : ℤ) =
        manager.total - feesDebited sample (start manager) timedOutTransfer := by
  intro manager
  have initial : manager.total = 0 := total_new _ _ _
  have fees : feesDebited sample (start manager) timedOutTransfer = -50 := by decide +kernel
  have refunded :
      (run (apply sample) (start manager) timedOutTransfer).manager.getBalance 0 7 = 1050 := by
    decide +kernel
  have known :
      0 < (run (apply sample) (start manager) timedOutTransfer).manager.config.shardCount := by
    decide +kernel
  have held := ShardManager.getBalance_le_total known 7
  rw [refunded] at held
  refine ⟨⟨fun _ => rfl, rfl, rfl, rfl⟩, by rw [initial]; decide, ?_⟩
  rw [worth]
  have amount : (1050 : U128).toNat = 1050 := rfl
  omega

end ShardSystem

end IronDag
