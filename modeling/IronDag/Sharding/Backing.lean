import IronDag.Sharding.Transit

namespace IronDag

namespace ShardManager

variable {manager : ShardManager}

/-- Every registered transaction is debited at a shard that exists. -/
def Routed (manager : ShardManager) : Prop :=
  ∀ txHash crossTx, manager.crossShardTxs.lookup txHash = some crossTx →
    crossTx.sourceShard < manager.config.shardCount

/-- What is registered stays registered, with the same transaction. -/
structure Retains (before after : ShardManager) : Prop where
  config : after.config = before.config
  recorded : ∀ txHash crossTx, before.crossShardTxs.lookup txHash = some crossTx →
    ∃ later, after.crossShardTxs.lookup txHash = some later ∧ later.tx = crossTx.tx
  routed : before.Routed → after.Routed

/-- Moreover, no balance changes. -/
structure Steady (before after : ShardManager) : Prop extends Retains before after where
  chains : ∀ shardId, (after.shards shardId).blockchain = (before.shards shardId).blockchain

theorem Retains.of_same (config : after.config = before.config)
    (same : after.crossShardTxs = before.crossShardTxs) : Retains before after := by
  refine ⟨config, fun _ crossTx found => ⟨crossTx, by rwa [same], rfl⟩, fun routed => ?_⟩
  rwa [Routed, same, config]

theorem Steady.of_same (config : after.config = before.config)
    (record : after.crossShardTxs = before.crossShardTxs)
    (shards : after.shards = before.shards) : Steady before after :=
  ⟨.of_same config record, fun _ => by rw [shards]⟩

theorem Retains.trans (first : Retains before middle) (second : Retains middle after) :
    Retains before after := by
  refine ⟨second.config.trans first.config, fun txHash crossTx found => ?_,
    second.routed ∘ first.routed⟩
  obtain ⟨later, read, same⟩ := first.recorded txHash crossTx found
  obtain ⟨last, readLast, sameLast⟩ := second.recorded txHash later read
  exact ⟨last, readLast, sameLast.trans same⟩

theorem Steady.trans (first : Steady before middle) (second : Steady middle after) :
    Steady before after :=
  ⟨first.toRetains.trans second.toRetains,
    fun shardId => (second.chains shardId).trans (first.chains shardId)⟩

theorem steady_modifyShard (shardId : ℕ)
    (kept : ∀ shard, (change shard).blockchain = shard.blockchain) :
    Steady manager (manager.modifyShard shardId change) := by
  refine ⟨.of_same rfl rfl, fun other => ?_⟩
  by_cases here : other = shardId
  · subst here
    simp [modifyShard, kept]
  · simp [modifyShard, here]

theorem steady_insert (txHash : Hash)
    (same : ∀ earlier, manager.crossShardTxs.lookup txHash = some earlier → crossTx.tx = earlier.tx)
    (known : manager.Routed → crossTx.sourceShard < manager.config.shardCount) :
    Steady manager
      { manager with crossShardTxs := manager.crossShardTxs.insert txHash crossTx } := by
  refine ⟨⟨rfl, fun other earlier found => ?_, fun routed other later found => ?_⟩, fun _ => rfl⟩
  · by_cases here : other = txHash
    · subst here
      exact ⟨crossTx, by simp, same earlier found⟩
    · exact ⟨earlier, by simpa [here] using found, rfl⟩
  · by_cases here : other = txHash
    · subst here
      simp only [Finmap.lookup_insert, Option.some.injEq] at found
      subst found
      exact known routed
    · simp only [Finmap.lookup_insert_of_ne _ here] at found
      exact routed other later found

theorem steady_updateCrossShardTx {txHash : Hash}
    (sameTx : ∀ crossTx, (change crossTx).tx = crossTx.tx)
    (sameSource : ∀ crossTx, (change crossTx).sourceShard = crossTx.sourceShard) :
    Steady manager (manager.updateCrossShardTx txHash change) := by
  unfold updateCrossShardTx
  split
  · rename_i crossTx found
    refine steady_insert txHash (fun earlier read => ?_) fun routed => ?_
    · rw [found] at read
      rw [sameTx, Option.some.inj read]
    · rw [sameSource]
      exact routed txHash crossTx found
  · exact .of_same rfl rfl rfl

theorem steady_of_sent (sent : manager.sendReceipt accepting receipt = (taken, after)) :
    Steady manager after := by
  obtain rfl : after = (manager.sendReceipt accepting receipt).2 := by rw [sent]
  simp only [sendReceipt]
  split
  · split <;> exact .of_same rfl rfl rfl
  · exact .of_same rfl rfl rfl

theorem steady_sendStateSync (accepting : Bool) (targetShard shardId : ℕ) (blockNumber : U64) :
    Steady manager (manager.sendStateSync accepting targetShard shardId blockNumber) := by
  simp only [sendStateSync]
  split <;> exact .of_same rfl rfl rfl

theorem steady_addTransaction (now : Instant)
    (same : ∀ crossTx, manager.crossShardTxs.lookup tx.hash = some crossTx → crossTx.tx = tx) :
    Steady manager (manager.addTransaction crypto tx now) := by
  simp only [addTransaction]
  split
  · have recorded : Steady manager (manager.registerCrossShardTransaction tx
        (manager.routeTransactionFull crypto tx).1
          (manager.routeTransactionFull crypto tx).2 now) :=
      steady_insert tx.hash (fun earlier found => (same earlier found).symm) fun _ =>
        manager.sourceShard_lt crypto tx
    refine Steady.trans (recorded.trans (steady_modifyShard _ fun shard => ?_))
      (steady_modifyShard _ fun shard => ?_)
    · simp only [Shard.blockchain_addTransaction]
    · rfl
  · exact steady_modifyShard _ fun shard => shard.blockchain_addTransaction tx

theorem steady_registerMined (tx : Transaction) (now : Instant) :
    Steady manager (manager.registerMined crypto tx now) := by
  simp only [registerMined]
  split
  · rename_i absent
    refine steady_insert tx.hash (fun earlier found => ?_) fun _ => manager.sourceShard_lt crypto tx
    have unregistered := absent.2
    rw [hasCrossShardTransaction, found] at unregistered
    cases unregistered
  · exact .of_same rfl rfl rfl

theorem steady_timeOut : Steady manager (manager.timeOut access).1 := by
  simp only [timeOut]
  generalize manager.timedOutTxs access.iteration access.now = refunds
  induction refunds generalizing manager with
  | nil => exact .of_same rfl rfl rfl
  | cons refund rest ih =>
    have marked : Steady manager (manager.markTimedOut refund.1) :=
      steady_updateCrossShardTx (fun _ => rfl) fun _ => rfl
    exact marked.trans ih

theorem retains_addBalance {address : Address} :
    Retains manager (manager.addBalance shardId address amount) := by
  unfold addBalance
  split <;> exact .of_same rfl rfl

/-- An access without an event moves no balance. -/
theorem Outcome.steady (outcome : Outcome crypto access manager task after next)
    (idle : manager.event task = none) : Steady manager after := by
  cases outcome with
  | insufficient | sufficient | outdated | confirmed _ | unconfirmed _ | retried | forgotten _
  | settled =>
    exact .of_same rfl rfl rfl
  | recorded | drained | processed => exact .of_same rfl rfl rfl
  | sent sent | resent sent | exhausted sent => exact steady_of_sent sent
  | refused sent | requeued sent => exact (steady_of_sent sent).trans (.of_same rfl rfl rfl)
  | committed | retryCommitted | failed _ =>
    exact steady_updateCrossShardTx (fun _ => rfl) fun _ => rfl
  | timedOut => exact steady_timeOut
  | debited | credited | refunded | timeoutRefunded => cases idle

theorem Outcome.retains (outcome : Outcome crypto access manager task after next) :
    Retains manager after := by
  cases happens : manager.event task with
  | none => exact (outcome.steady happens).toRetains
  | some event =>
    cases outcome with
    | debited => exact .of_same rfl rfl
    | credited | refunded | timeoutRefunded => exact retains_addBalance
    | forgotten _ => exact .of_same rfl rfl
    | failed registered =>
      simp [ShardManager.event, hasCrossShardTransaction, registered] at happens
    | _ => cases happens

/-- The transaction of a receipt is registered, and its cost is a number of 128 bits. -/
structure Backs (manager : ShardManager) (receipt : Receipt) : Prop where
  recorded : ∃ crossTx, manager.crossShardTxs.lookup receipt.txHash = some crossTx ∧
    crossTx.tx.value = receipt.value ∧ crossTx.tx.value.toNat + crossTx.tx.fee.toNat < 2 ^ 128
  known : receipt.sourceShard < manager.config.shardCount

theorem Backs.retained (backed : before.Backs receipt) (retains : Retains before after) :
    after.Backs receipt := by
  obtain ⟨crossTx, found, same, fits⟩ := backed.recorded
  obtain ⟨later, read, sameTx⟩ := retains.recorded _ crossTx found
  exact ⟨⟨later, read, by rw [sameTx, same], by rwa [sameTx]⟩,
    by rw [retains.config]; exact backed.known⟩

/-- What a call has read of the record still holds, as far as the transaction is concerned. -/
structure Recalls (manager : ShardManager) (txHash : Hash) (crossTx : CrossShardTransaction) :
    Prop where
  recorded : ∃ current, manager.crossShardTxs.lookup txHash = some current ∧ current.tx = crossTx.tx
  known : crossTx.sourceShard < manager.config.shardCount

theorem Recalls.retained (recalled : before.Recalls txHash crossTx)
    (retains : Retains before after) : after.Recalls txHash crossTx := by
  obtain ⟨current, found, same⟩ := recalled.recorded
  obtain ⟨later, read, sameTx⟩ := retains.recorded _ current found
  exact ⟨⟨later, read, sameTx.trans same⟩, by rw [retains.config]; exact recalled.known⟩

/-- What the tasks of a run without timeouts rely on. -/
def Supports (manager : ShardManager) : ShardTask → Prop
  | .called txHash crossTx | .checked txHash crossTx => manager.Recalls txHash crossTx
  | .debited txHash crossTx =>
    manager.Recalls txHash crossTx ∧ crossTx.tx.value.toNat + crossTx.tx.fee.toNat < 2 ^ 128
  | .retrying _ entries | .retryCommitting _ _ entries =>
    ∀ entry ∈ entries, manager.Backs entry.toReceipt
  | .retryFailing _ entry entries => ∀ queued ∈ entry :: entries, manager.Backs queued.toReceipt
  | .retryRefunding _ crossTx entry entries =>
    (crossTx.tx.value = entry.value ∧ crossTx.tx.value.toNat + crossTx.tx.fee.toNat < 2 ^ 128 ∧
      entry.sourceShard < manager.config.shardCount) ∧
        ∀ queued ∈ entries, manager.Backs queued.toReceipt
  | .timeoutRefunding refunds => refunds = []
  | _ => True

theorem Supports.retained (supported : before.Supports task) (retains : Retains before after) :
    after.Supports task := by
  cases task with
  | called txHash crossTx | checked txHash crossTx => exact Recalls.retained supported retains
  | debited txHash crossTx => exact ⟨Recalls.retained supported.1 retains, supported.2⟩
  | retrying now entries => exact fun entry member => (supported entry member).retained retains
  | retryCommitting now txHash entries =>
    exact fun entry member => (supported entry member).retained retains
  | retryFailing now entry entries =>
    exact fun queued member => (supported queued member).retained retains
  | retryRefunding now crossTx entry entries =>
    obtain ⟨⟨same, fits, known⟩, queue⟩ := supported
    refine ⟨⟨same, fits, ?_⟩, fun queued member => (queue queued member).retained retains⟩
    rw [retains.config]
    exact known
  | timeoutRefunding refunds => exact supported
  | _ => trivial

theorem retryQueue_updateCrossShardTx {txHash : Hash}
    {change : CrossShardTransaction → CrossShardTransaction} :
    (manager.updateCrossShardTx txHash change).retryQueue = manager.retryQueue := by
  unfold updateCrossShardTx
  split <;> rfl

theorem retryQueue_addBalance {address : Address} :
    (manager.addBalance shardId address amount).retryQueue = manager.retryQueue := by
  unfold addBalance
  split <;> rfl

theorem retryQueue_of_sent
    (sent : manager.sendReceipt accepting receipt = (taken, after)) :
    after.retryQueue = manager.retryQueue := by
  obtain rfl : after = (manager.sendReceipt accepting receipt).2 := by rw [sent]
  simp only [sendReceipt]
  split
  · split <;> rfl
  · rfl

theorem retryQueue_timeOut : (manager.timeOut access).1.retryQueue = manager.retryQueue := by
  simp only [timeOut]
  generalize manager.timedOutTxs access.iteration access.now = refunds
  induction refunds generalizing manager with
  | nil => rfl
  | cons refund rest ih =>
    rw [List.foldl_cons, ih]
    exact retryQueue_updateCrossShardTx

variable (outcome : Outcome crypto access manager task after next)
  (supported : manager.Supports task)

include outcome supported

/-- What an access queues for a retry is backed. -/
theorem Outcome.retryQueue :
    ∀ entry ∈ after.retryQueue, entry ∈ manager.retryQueue ∨ manager.Backs entry.toReceipt := by
  have kept {after : ShardManager} (same : after.retryQueue = manager.retryQueue) :
      ∀ entry ∈ after.retryQueue, entry ∈ manager.retryQueue ∨ manager.Backs entry.toReceipt :=
    fun entry member => .inl (same ▸ member)
  cases outcome with
  | insufficient | sufficient | outdated | confirmed _ | unconfirmed _ | retried | forgotten _
  | settled => exact kept rfl
  | debited | recorded | drained | processed => exact kept rfl
  | sent sent | resent sent | exhausted sent => exact kept (retryQueue_of_sent sent)
  | refused sent =>
    intro entry member
    rw [queueForRetry, retryQueue_of_sent sent] at member
    rcases List.mem_append.mp member with queued | new
    · exact .inl queued
    · obtain rfl := List.mem_singleton.mp new
      obtain ⟨recalled, fits⟩ := supported
      obtain ⟨current, found, sameTx⟩ := recalled.recorded
      refine .inr ⟨⟨current, found, ?_, ?_⟩, recalled.known⟩
      · rw [sameTx]
        rfl
      · rwa [sameTx]
  | @requeued _ entry _ _ sent =>
    intro queued member
    rw [requeue, retryQueue_of_sent sent] at member
    rcases List.mem_append.mp member with earlier | again
    · exact .inl earlier
    · obtain rfl := List.mem_singleton.mp again
      exact .inr (supported entry List.mem_cons_self)
  | committed | retryCommitted | failed _ => exact kept retryQueue_updateCrossShardTx
  | credited | refunded | timeoutRefunded => exact kept retryQueue_addBalance
  | timedOut => exact kept retryQueue_timeOut

/-- What a task goes on as relies on no more than the task did, if the debit fits and nothing times
out. -/
theorem Outcome.supports (debitFits : ∀ txHash crossTx, task = .checked txHash crossTx →
      crossTx.tx.value.toNat + crossTx.tx.fee.toNat < 2 ^ 128)
    (inTime : task = .timingOut → manager.timedOutTxs access.iteration access.now = []) :
    ∀ other ∈ next, manager.Supports other := by
  have only {next : ShardTask} (holds : manager.Supports next) :
      ∀ other ∈ ({next} : Multiset ShardTask), manager.Supports other := by
    intro other member
    rwa [Multiset.mem_singleton.mp member]
  have nothing : ∀ other ∈ (0 : Multiset ShardTask), manager.Supports other :=
    fun other member => absurd member (Multiset.notMem_zero other)
  cases outcome with
  | insufficient | refused _ | committed | outdated | processed | settled => exact nothing
  | sufficient | retryCommitted => exact only supported
  | @debited txHash crossTx => exact only ⟨supported, debitFits txHash crossTx rfl⟩
  | sent _ | recorded | drained | confirmed _ | unconfirmed _ | credited | retried =>
    exact only trivial
  | resent _ | requeued _ =>
    exact only fun queued member => supported queued (List.mem_cons_of_mem _ member)
  | exhausted _ => exact only supported
  | @failed _ entry _ _ registered =>
    have backed := supported entry List.mem_cons_self
    obtain ⟨recorded, read, same, fits⟩ := backed.recorded
    rw [registered] at read
    obtain rfl := Option.some.inj read
    exact only ⟨⟨same, fits, backed.known⟩,
      fun queued member => supported queued (List.mem_cons_of_mem _ member)⟩
  | forgotten _ => exact only fun queued member => supported queued (List.mem_cons_of_mem _ member)
  | refunded => exact only supported.2
  | timedOut => exact only (inTime rfl)
  | timeoutRefunded => cases supported

end ShardManager

end IronDag
