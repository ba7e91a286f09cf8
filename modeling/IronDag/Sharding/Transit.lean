import IronDag.Sharding.System

namespace IronDag

open ShardManager Multiset

/-- A receipt as far as crediting is concerned: its id and its value. -/
abbrev Carried := Hash × U128

def Receipt.carried (receipt : Receipt) : Carried :=
  (receipt.receiptId, receipt.value)

def PendingReceiptEntry.carried (entry : PendingReceiptEntry) : Carried :=
  (entry.receiptId, entry.value)

variable {message : CrossShardMessage} {channel : List CrossShardMessage}
  {entry : CrossShardRetryEntry}
  {receipt : Receipt}

@[simp] theorem Receipt.carried_toPending : receipt.toPending.carried = receipt.carried := rfl

def CrossShardMessage.carried : CrossShardMessage → Multiset Carried
  | .receipt sent => {sent.carried}
  | .stateSync _ _ => 0

def channelCarried (channel : List CrossShardMessage) : Multiset Carried :=
  (channel : Multiset CrossShardMessage).bind CrossShardMessage.carried

def pendingCarried (entries : List PendingReceiptEntry) : Multiset Carried :=
  (entries : Multiset PendingReceiptEntry).map PendingReceiptEntry.carried

def retryCarried (entries : List CrossShardRetryEntry) : Multiset Carried :=
  (entries : Multiset CrossShardRetryEntry).map fun entry => entry.toReceipt.carried

@[simp] theorem channelCarried_cons :
    channelCarried (message :: channel) = message.carried + channelCarried channel := by
  simp [channelCarried, ← cons_coe]

@[simp] theorem channelCarried_concat :
    channelCarried (channel ++ [message]) = channelCarried channel + message.carried := by
  simp [channelCarried, ← coe_add]

@[simp] theorem pendingCarried_nil : pendingCarried [] = 0 := rfl

@[simp] theorem pendingCarried_cons {entry : PendingReceiptEntry} :
    pendingCarried (entry :: entries) = {entry.carried} + pendingCarried entries := by
  simp [pendingCarried]

@[simp] theorem pendingCarried_append {front back : List PendingReceiptEntry} :
    pendingCarried (front ++ back) = pendingCarried front + pendingCarried back := by
  simp [pendingCarried]

@[simp] theorem retryCarried_nil : retryCarried [] = 0 := rfl

@[simp] theorem retryCarried_cons :
    retryCarried (entry :: entries) = {entry.toReceipt.carried} + retryCarried entries := by
  simp [retryCarried]

@[simp] theorem retryCarried_append (front back : List CrossShardRetryEntry) :
    retryCarried (front ++ back) = retryCarried front + retryCarried back := by
  simp [retryCarried]

namespace ShardTask

/-- What a task carries. A receipt that will be refunded is carried until the refund is made. -/
def carried (crypto : Crypto) : ShardTask → Multiset Carried
  | .debited txHash crossTx =>
    {(receiptIdOf crypto txHash crossTx, crossTx.tx.value)}
  | .processing _ entries stillPending => pendingCarried entries + pendingCarried stillPending
  | .crediting _ entry entries stillPending =>
    {entry.carried} + (pendingCarried entries + pendingCarried stillPending)
  | .retrying _ entries | .retryCommitting _ _ entries => retryCarried entries
  | .retryFailing _ entry entries | .retryRefunding _ _ entry entries =>
    {entry.toReceipt.carried} + retryCarried entries
  | .called _ _ | .checked _ _ | .committing _ | .recording _ _ _ | .draining _ | .timingOut
  | .timeoutRefunding _ => 0

end ShardTask

/-- What an access does to the money of the shards and of the receipts. -/
inductive ShardEvent where
  | debit (txHash : Hash) (crossTx : CrossShardTransaction)
  | credit (entry : PendingReceiptEntry)
  | retryRefund (crossTx : CrossShardTransaction) (entry : CrossShardRetryEntry)
  | timeoutRefund (txHash : Hash) (crossTx : CrossShardTransaction)
  /-- A receipt is given up without a refund, because its transaction is not registered. -/
  | drop (entry : CrossShardRetryEntry)
  deriving DecidableEq

namespace ShardEvent

/-- The receipt that begins with an event. -/
def created (crypto : Crypto) : Option ShardEvent → Multiset Carried
  | some (.debit txHash crossTx) =>
    {(receiptIdOf crypto txHash crossTx, crossTx.tx.value)}
  | _ => 0

/-- The receipt that ends with an event. -/
def settled : Option ShardEvent → Multiset Carried
  | some (.credit entry) => {entry.carried}
  | some (.retryRefund _ entry) | some (.drop entry) => {entry.toReceipt.carried}
  | _ => 0

end ShardEvent

namespace ShardManager

variable (crypto : Crypto) (access : ShardAccess) (manager : ShardManager)

def event : ShardTask → Option ShardEvent
  | .checked txHash crossTx => some (.debit txHash crossTx)
  | .crediting _ entry _ _ => some (.credit entry)
  | .retryFailing _ entry _ =>
    if manager.hasCrossShardTransaction entry.txHash then none else some (.drop entry)
  | .retryRefunding _ crossTx entry _ => some (.retryRefund crossTx entry)
  | .timeoutRefunding ((txHash, crossTx) :: _) => some (.timeoutRefund txHash crossTx)
  | _ => none

/-- The receipts that no task carries. -/
def carried : Multiset Carried :=
  ∑ shardId ∈ Finset.range manager.config.shardCount, channelCarried (manager.channels shardId) +
    retryCarried manager.retryQueue + pendingCarried manager.pendingReceipts

variable {manager}

@[simp] theorem carried_modifyShard {change : Shard → Shard} :
    (manager.modifyShard shardId change).carried = manager.carried := rfl

variable {now : Instant} {address : Address} {tx : Transaction}

@[simp] theorem carried_setBalance {balance : U128} :
    (manager.setBalance shardId address balance).carried = manager.carried := rfl

@[simp] theorem carried_addBalance :
    (manager.addBalance shardId address amount).carried = manager.carried := by
  unfold addBalance
  split <;> rfl

@[simp] theorem carried_updateCrossShardTx {txHash : Hash}
    {change : CrossShardTransaction → CrossShardTransaction} :
    (manager.updateCrossShardTx txHash change).carried = manager.carried := by
  unfold updateCrossShardTx
  split <;> rfl

@[simp] theorem carried_addTransaction :
    (manager.addTransaction crypto tx now).carried = manager.carried := by
  simp only [addTransaction]
  split <;> rfl

@[simp] theorem carried_registerMined :
    (manager.registerMined crypto tx now).carried = manager.carried := by
  simp only [registerMined]
  split <;> rfl

@[simp] theorem carried_queueForRetry :
    (manager.queueForRetry receipt now).carried = manager.carried + {receipt.carried} := by
  simp only [carried, queueForRetry, retryCarried_append, retryCarried_cons]
  abel

@[simp] theorem carried_requeue :
    (manager.requeue entry now).carried = manager.carried + {entry.toReceipt.carried} := by
  simp only [carried, requeue, retryCarried_append, retryCarried_cons]
  abel

theorem carried_channels (known : shardId < manager.config.shardCount)
    (channel : List CrossShardMessage) :
    { manager with channels := Function.update manager.channels shardId channel }.carried +
        channelCarried (manager.channels shardId) =
      manager.carried + channelCarried channel := by
  have replaced := @Custody.sum_replace _ _ _ _ (fun id => channelCarried (manager.channels id))
    (fun id => channelCarried (Function.update manager.channels shardId channel id)) shardId
    (Finset.mem_range.mpr known) fun other _ different => by
      simp only [Function.update_of_ne different]
  simp only [Function.update_self] at replaced
  simp only [carried]
  calc
    _ = ∑ id ∈ Finset.range manager.config.shardCount,
          channelCarried (Function.update manager.channels shardId channel id) +
          channelCarried (manager.channels shardId) + retryCarried manager.retryQueue +
          pendingCarried manager.pendingReceipts := by abel
    _ = _ := by rw [replaced]; abel

theorem carried_sendReceipt (accepting : Bool) (receipt : Receipt) :
    (manager.sendReceipt accepting receipt).2.carried =
      manager.carried +
        (if (manager.sendReceipt accepting receipt).1 then {receipt.carried} else 0) := by
  unfold sendReceipt
  by_cases known : receipt.targetShard < manager.config.shardCount
  · have sent := carried_channels known (manager.channels receipt.targetShard ++ [.receipt receipt])
    rw [channelCarried_concat, add_comm (channelCarried _), ← add_assoc] at sent
    simp only [if_pos known]
    split
    · exact add_right_cancel sent
    · exact (add_zero _).symm
  · simp only [if_neg known]
    exact (add_zero _).symm

theorem carried_sendStateSync {accepting : Bool} {targetShard shardId : ℕ} {blockNumber : U64} :
    (manager.sendStateSync accepting targetShard shardId blockNumber).carried =
      manager.carried := by
  simp only [sendStateSync]
  split
  · rename_i possible
    have sent :=
      carried_channels possible.1 (manager.channels targetShard ++ [.stateSync shardId blockNumber])
    rw [channelCarried_concat, CrossShardMessage.carried, add_zero] at sent
    exact add_right_cancel sent
  · rfl

/-- A replay brings in receipts of the log, at most once for each record. -/
theorem carried_replay (accepting : Receipt → Bool) (records : List Receipt) :
    ∃ replayed ≤ (records : Multiset Receipt).map Receipt.carried,
      (records.foldl
        (fun state receipt => (state.sendReceipt (accepting receipt) receipt).2) manager).carried =
        manager.carried + replayed := by
  induction records generalizing manager with
  | nil => exact ⟨0, le_refl _, (add_zero _).symm⟩
  | cons receipt rest ih =>
    obtain ⟨replayed, among, total⟩ := @ih (manager.sendReceipt (accepting receipt) receipt).2
    refine ⟨(if (manager.sendReceipt (accepting receipt) receipt).1 then {receipt.carried} else 0) +
      replayed, ?_, ?_⟩
    · rw [← cons_coe, map_cons, ← singleton_add]
      refine add_le_add ?_ among
      split
      · exact le_refl _
      · exact zero_le _
    · rw [List.foldl_cons, total, carried_sendReceipt, add_assoc]

theorem carried_taken (taken : manager.sendReceipt accepting receipt = (true, after)) :
    after.carried = manager.carried + {receipt.carried} := by
  simpa [taken] using @carried_sendReceipt manager accepting receipt

theorem carried_refused
    (refused : manager.sendReceipt accepting receipt = (false, after)) :
    after.carried = manager.carried := by
  simpa [refused] using @carried_sendReceipt manager accepting receipt

theorem carried_timeOut : (manager.timeOut access).1.carried = manager.carried := by
  simp only [timeOut]
  generalize manager.timedOutTxs access.iteration access.now = refunds
  induction refunds generalizing manager with
  | nil => rfl
  | cons refund rest ih =>
    rw [List.foldl_cons, ih]
    exact carried_updateCrossShardTx

variable {crypto access}

/-- Receipts are created by debits and settled by credits and refunds; any other access moves them
at most from one place to another. -/
theorem Outcome.carried (outcome : Outcome crypto access manager task after next) :
    after.carried + next.bind (ShardTask.carried crypto) + ShardEvent.settled (manager.event task) =
      manager.carried + task.carried crypto + ShardEvent.created crypto (manager.event task) := by
  cases outcome with
  | insufficient | sufficient | outdated | retried | settled =>
    simp [event, ShardEvent.settled, ShardEvent.created, ShardTask.carried]
  | debited => simp [debit, event, ShardEvent.settled, ShardEvent.created, ShardTask.carried]
  | sent taken =>
    rw [carried_taken taken]
    simp [event, ShardEvent.settled, ShardEvent.created, ShardTask.carried,
      receiptFor, Receipt.carried]
  | refused refused =>
    rw [carried_queueForRetry, carried_refused refused]
    simp [event, ShardEvent.settled, ShardEvent.created, ShardTask.carried,
      receiptFor, Receipt.carried]
  | committed | retryCommitted =>
    simp [markCommitted, event, ShardEvent.settled, ShardEvent.created, ShardTask.carried]
  | recorded =>
    simp [recordHeight, ShardManager.carried, event, ShardEvent.settled,
      ShardEvent.created, ShardTask.carried]
  | drained | processed =>
    simp [ShardManager.carried, event, ShardEvent.settled, ShardEvent.created,
      ShardTask.carried, add_assoc]
  | confirmed _ => simp [event, ShardEvent.settled, ShardEvent.created, ShardTask.carried]
  | unconfirmed _ =>
    simp only [event, ShardEvent.settled, ShardEvent.created, ShardTask.carried, singleton_bind,
      pendingCarried_append, pendingCarried_cons, pendingCarried_nil, add_zero]
    abel
  | credited =>
    simp only [processReceipt, carried_addBalance, event, ShardEvent.settled, ShardEvent.created,
      ShardTask.carried, singleton_bind]
    abel
  | resent taken =>
    simp only [carried_taken taken, event, ShardEvent.settled, ShardEvent.created,
      ShardTask.carried, singleton_bind, retryCarried_cons]
    abel
  | exhausted refused =>
    simp [carried_refused refused, event, ShardEvent.settled, ShardEvent.created, ShardTask.carried]
  | requeued refused =>
    simp only [carried_requeue, carried_refused refused, event, ShardEvent.settled,
      ShardEvent.created, ShardTask.carried, singleton_bind, retryCarried_cons]
    abel
  | failed registered =>
    simp [event, hasCrossShardTransaction, registered, markFailed, ShardEvent.settled,
      ShardEvent.created, ShardTask.carried]
  | forgotten absent =>
    simp only [event, hasCrossShardTransaction, absent, Option.isSome_none,
      Bool.false_eq_true, if_false,
      ShardEvent.settled, ShardEvent.created, ShardTask.carried, singleton_bind]
    abel
  | refunded =>
    simp only [refund, carried_addBalance, event, ShardEvent.settled, ShardEvent.created,
      ShardTask.carried, singleton_bind]
    abel
  | timedOut =>
    simp [carried_timeOut, event, ShardEvent.settled, ShardEvent.created, ShardTask.carried]
  | timeoutRefunded =>
    simp [refund, event, ShardEvent.settled, ShardEvent.created, ShardTask.carried]

end ShardManager

namespace ShardSystem

variable (crypto : Crypto) (system : ShardSystem)

/-- All receipts that were created and not settled. -/
def inTransit : Multiset Carried :=
  system.manager.carried + system.tasks.bind (ShardTask.carried crypto)

/-- What a step does to the money. -/
def event : ShardStep → Option ShardEvent
  | .advance task _ => if task ∈ system.tasks then system.manager.event task else none
  | _ => none

variable {crypto system}

variable {task : ShardTask}

theorem inTransit_spawn :
    (system.spawn task).inTransit crypto = system.inTransit crypto + task.carried crypto := by
  simp only [inTransit, spawn, cons_bind]
  abel

theorem carried_handle {receiver : ℕ} :
    (handle receiver message).carried crypto = message.carried := by
  cases message <;> simp [handle, ShardTask.carried, CrossShardMessage.carried]

theorem inTransit_processCrossShardTransaction {txHash : Hash} :
    (system.processCrossShardTransaction txHash).inTransit crypto = system.inTransit crypto := by
  unfold processCrossShardTransaction
  split
  · rw [inTransit_spawn]
    exact add_zero _
  · rfl

theorem inTransit_recv (shardId : ℕ) :
    (system.recv shardId).inTransit crypto = system.inTransit crypto := by
  unfold recv
  split
  · rename_i free
    cases waiting : system.manager.channels shardId with
    | nil => rfl
    | cons message rest =>
      have taken := carried_channels free.1 rest
      rw [waiting, channelCarried_cons, add_comm message.carried,
        ← add_assoc, add_right_comm] at taken
      rw [inTransit_spawn, carried_handle]
      have left := add_right_cancel taken
      simp only [inTransit]
      rw [add_right_comm, left]
  · rfl

theorem inTransit_tick (now : Instant) :
    (system.tick now).inTransit crypto = system.inTransit crypto := by
  unfold tick
  split
  · rfl
  · rw [inTransit_spawn]
    have split := retryCarried_append (system.manager.retryQueue.takeWhile (isDue now))
      (system.manager.retryQueue.dropWhile (isDue now))
    rw [List.takeWhile_append_dropWhile] at split
    simp only [inTransit, carried, split]
    abel

theorem inTransit_advance (access : ShardAccess) (running : task ∈ system.tasks) :
    (system.advance crypto task access).inTransit crypto + ShardEvent.settled
      (system.manager.event task) =
      system.inTransit crypto + ShardEvent.created crypto (system.manager.event task) := by
  have moved := (system.manager.outcome_advance crypto access task).carried
  have replaced := Custody.bind_replace (ShardTask.carried crypto)
    (system.manager.advance crypto access task).2 running
  simp only [advance, if_pos running, inTransit]
  apply add_right_cancel (b := task.carried crypto)
  calc
    _ = (system.manager.advance crypto access task).1.carried + ShardEvent.settled
      (system.manager.event task) +
          ((Custody.replace system.tasks task (system.manager.advance crypto access task).2).bind
              (ShardTask.carried crypto) + task.carried crypto) := by abel
    _ = (system.manager.advance crypto access task).1.carried +
            (system.manager.advance crypto access task).2.bind (ShardTask.carried crypto) +
            ShardEvent.settled (system.manager.event task) + system.tasks.bind
              (ShardTask.carried crypto) := by
          rw [replaced]
          abel
    _ = _ := by
          rw [moved]
          abel

theorem inTransit_replayWal (accepting : Receipt → Bool) :
    ∃ replayed ≤
      ((system.manager.wal.getD [] : List Receipt) : Multiset Receipt).map Receipt.carried,
      (apply crypto (.replayWal accepting) system).inTransit crypto =
        system.inTransit crypto + replayed := by
  obtain ⟨replayed, among, total⟩ :=
    @carried_replay system.manager accepting (system.manager.wal.getD [])
  refine ⟨replayed, among, ?_⟩
  simp only [inTransit, apply, replayWal, total]
  abel

theorem inTransit_crash : system.crash.inTransit crypto = 0 := by
  simp [crash, start, inTransit, new, carried, channelCarried]

end ShardSystem

end IronDag
