import IronDag.Lib.Custody
import IronDag.Sharding.Manager

namespace IronDag

open ShardManager

inductive Party where
  | receiver (shardId : ℕ)
  | retryWorker
  deriving DecidableEq

inductive ShardTask where
  /-- A call that has read the record of its transaction. -/
  | called (txHash : Hash) (crossTx : CrossShardTransaction)
  /-- The balance was found to be high enough; the deduction follows. -/
  | checked (txHash : Hash) (crossTx : CrossShardTransaction)
  | debited (txHash : Hash) (crossTx : CrossShardTransaction)
  /-- The receipt was sent; the status is still to be set. -/
  | committing (txHash : Hash)
  /-- The receiver of a shard took a height from its channel. -/
  | recording (receiver shardId : ℕ) (blockNumber : U64)
  /-- A new height was recorded; the pending receipts are to be taken. -/
  | draining (receiver : ℕ)
  /-- The loop over taken receipts, with those that stay pending. A receipt from the channel is the
  only one of its loop. -/
  | processing (receiver : ℕ) (entries stillPending : List PendingReceiptEntry)
  /-- A receipt of the loop was found to be confirmed. -/
  | crediting (receiver : ℕ) (entry : PendingReceiptEntry)
      (entries stillPending : List PendingReceiptEntry)
  /-- The loop of the worker over the entries that were due. -/
  | retrying (now : Instant) (entries : List CrossShardRetryEntry)
  | retryCommitting (now : Instant) (txHash : Hash) (entries : List CrossShardRetryEntry)
  /-- The last retry was refused; the transaction is to be marked. -/
  | retryFailing (now : Instant) (entry : CrossShardRetryEntry)
      (entries : List CrossShardRetryEntry)
  | retryRefunding (now : Instant) (crossTx : CrossShardTransaction) (entry : CrossShardRetryEntry)
      (entries : List CrossShardRetryEntry)
  | timingOut
  | timeoutRefunding (refunds : List (Hash × CrossShardTransaction))
  deriving DecidableEq

namespace ShardTask

/-- The loop that a task belongs to. Calls are independent of each other. -/
def party : ShardTask → Option Party
  | .called _ _ | .checked _ _ | .debited _ _ | .committing _ => none
  | .recording receiver _ _ | .draining receiver | .processing receiver _ _
  | .crediting receiver _ _ _ => some (.receiver receiver)
  | .retrying _ _ | .retryCommitting _ _ _ | .retryFailing _ _ _ | .retryRefunding _ _ _ _
  | .timingOut | .timeoutRefunding _ => some .retryWorker

end ShardTask

/-- What the outside decides about one access: whether a channel accepts, what the clock shows, and
in which order a hash map is iterated. -/
structure ShardAccess where
  accepting : Bool
  now : Instant
  iteration : SetIteration Hash

namespace ShardManager

variable (crypto : Crypto) (access : ShardAccess) (manager : ShardManager)

def dispatch (txHash : Hash) (crossTx : CrossShardTransaction) :
    ShardManager × Multiset ShardTask :=
  let receipt := manager.receiptFor crypto txHash crossTx
  match manager.sendReceipt access.accepting receipt with
  | (true, sent) => (sent, {.committing txHash})
  | (false, refused) => (refused.queueForRetry receipt access.now, 0)

def record (receiver shardId : ℕ) (blockNumber : U64) : ShardManager × Multiset ShardTask :=
  if manager.advances shardId blockNumber then
    (manager.recordHeight shardId blockNumber, {.draining receiver})
  else (manager, 0)

def process (receiver : ℕ) (entries stillPending : List PendingReceiptEntry) :
    ShardManager × Multiset ShardTask :=
  match entries with
  | [] => ({ manager with pendingReceipts := manager.pendingReceipts ++ stillPending }, 0)
  | entry :: rest =>
    if manager.isConfirmed entry then (manager, {.crediting receiver entry rest stillPending})
    else (manager, {.processing receiver rest (stillPending ++ [entry])})

def retry (now : Instant) (entries : List CrossShardRetryEntry) :
    ShardManager × Multiset ShardTask :=
  match entries with
  | [] => (manager, {.timingOut})
  | entry :: rest =>
    match manager.sendReceipt access.accepting entry.toReceipt with
    | (true, sent) => (sent, {.retryCommitting now entry.txHash rest})
    | (false, refused) =>
      if crossShardMaxRetries ≤ entry.retryCount + 1 then (refused, {.retryFailing now entry rest})
      else (refused.requeue entry now, {.retrying now rest})

def fail (now : Instant) (entry : CrossShardRetryEntry) (rest : List CrossShardRetryEntry) :
    ShardManager × Multiset ShardTask :=
  match manager.crossShardTxs.lookup entry.txHash with
  | some crossTx => (manager.markFailed entry.txHash, {.retryRefunding now crossTx entry rest})
  | none => (manager, {.retrying now rest})

def timeOut : ShardManager × Multiset ShardTask :=
  let refunds := manager.timedOutTxs access.iteration access.now
  (refunds.foldl (fun marked refund => marked.markTimedOut refund.1) manager,
    {.timeoutRefunding refunds})

/-- The next access of a task, and how the task goes on. -/
def advance : ShardTask → ShardManager × Multiset ShardTask
  | .called txHash crossTx =>
    match manager.validateSource crossTx with
    | .ok () => (manager, {.checked txHash crossTx})
    | .error _ => (manager, 0)
  | .checked txHash crossTx => (manager.debit crossTx, {.debited txHash crossTx})
  | .debited txHash crossTx => manager.dispatch crypto access txHash crossTx
  | .committing txHash => (manager.markCommitted txHash, 0)
  | .recording receiver shardId blockNumber => manager.record receiver shardId blockNumber
  | .draining receiver =>
    ({ manager with pendingReceipts := [] }, {.processing receiver manager.pendingReceipts []})
  | .processing receiver entries stillPending => manager.process receiver entries stillPending
  | .crediting receiver entry entries stillPending =>
    (manager.processReceipt crypto entry, {.processing receiver entries stillPending})
  | .retrying now entries => manager.retry access now entries
  | .retryCommitting now txHash entries => (manager.markCommitted txHash, {.retrying now entries})
  | .retryFailing now entry entries => manager.fail now entry entries
  | .retryRefunding now crossTx entry entries =>
    (manager.refund entry.sourceShard crossTx, {.retrying now entries})
  | .timingOut => manager.timeOut access
  | .timeoutRefunding [] => (manager, 0)
  | .timeoutRefunding ((_, crossTx) :: rest) =>
    (manager.refund crossTx.sourceShard crossTx, {.timeoutRefunding rest})

/-- Everything that an access of a task can lead to. -/
inductive Outcome : ShardTask → ShardManager → Multiset ShardTask → Prop
  | insufficient {txHash : Hash} {crossTx : CrossShardTransaction} :
      Outcome (.called txHash crossTx) manager 0
  | sufficient {txHash : Hash} {crossTx : CrossShardTransaction} :
      Outcome (.called txHash crossTx) manager {.checked txHash crossTx}
  | debited {txHash : Hash} {crossTx : CrossShardTransaction} :
      Outcome (.checked txHash crossTx) (manager.debit crossTx) {.debited txHash crossTx}
  | sent {txHash : Hash} {crossTx : CrossShardTransaction} {after : ShardManager}
      (taken : manager.sendReceipt access.accepting (manager.receiptFor crypto txHash crossTx) =
        (true, after)) :
      Outcome (.debited txHash crossTx) after {.committing txHash}
  | refused {txHash : Hash} {crossTx : CrossShardTransaction} {after : ShardManager}
      (refused : manager.sendReceipt access.accepting (manager.receiptFor crypto txHash crossTx) =
        (false, after)) :
      Outcome (.debited txHash crossTx)
        (after.queueForRetry (manager.receiptFor crypto txHash crossTx) access.now) 0
  | committed {txHash : Hash} : Outcome (.committing txHash) (manager.markCommitted txHash) 0
  | recorded {receiver shardId : ℕ} {blockNumber : U64} :
      Outcome (.recording receiver shardId blockNumber) (manager.recordHeight shardId blockNumber)
        {.draining receiver}
  | outdated {receiver shardId : ℕ} {blockNumber : U64} :
      Outcome (.recording receiver shardId blockNumber) manager 0
  | drained {receiver : ℕ} :
      Outcome (.draining receiver) { manager with pendingReceipts := [] }
        {.processing receiver manager.pendingReceipts []}
  | processed {receiver : ℕ} {stillPending : List PendingReceiptEntry} :
      Outcome (.processing receiver [] stillPending)
        { manager with pendingReceipts := manager.pendingReceipts ++ stillPending } 0
  | confirmed {receiver : ℕ} {entry : PendingReceiptEntry}
      {rest stillPending : List PendingReceiptEntry}
      (confirmed : manager.isConfirmed entry = true) :
      Outcome (.processing receiver (entry :: rest) stillPending) manager
        {.crediting receiver entry rest stillPending}
  | unconfirmed {receiver : ℕ} {entry : PendingReceiptEntry}
      {rest stillPending : List PendingReceiptEntry}
      (unconfirmed : manager.isConfirmed entry = false) :
      Outcome (.processing receiver (entry :: rest) stillPending) manager
        {.processing receiver rest (stillPending ++ [entry])}
  | credited {receiver : ℕ} {entry : PendingReceiptEntry}
      {entries stillPending : List PendingReceiptEntry} :
      Outcome (.crediting receiver entry entries stillPending) (manager.processReceipt crypto entry)
        {.processing receiver entries stillPending}
  | retried {now : Instant} : Outcome (.retrying now []) manager {.timingOut}
  | resent {now : Instant} {entry : CrossShardRetryEntry} {rest : List CrossShardRetryEntry}
      {after : ShardManager}
      (taken : manager.sendReceipt access.accepting entry.toReceipt = (true, after)) :
      Outcome (.retrying now (entry :: rest)) after {.retryCommitting now entry.txHash rest}
  | exhausted {now : Instant} {entry : CrossShardRetryEntry} {rest : List CrossShardRetryEntry}
      {after : ShardManager}
      (refused : manager.sendReceipt access.accepting entry.toReceipt = (false, after)) :
      Outcome (.retrying now (entry :: rest)) after {.retryFailing now entry rest}
  | requeued {now : Instant} {entry : CrossShardRetryEntry} {rest : List CrossShardRetryEntry}
      {after : ShardManager}
      (refused : manager.sendReceipt access.accepting entry.toReceipt = (false, after)) :
      Outcome (.retrying now (entry :: rest)) (after.requeue entry now) {.retrying now rest}
  | retryCommitted {now : Instant} {txHash : Hash} {entries : List CrossShardRetryEntry} :
      Outcome (.retryCommitting now txHash entries) (manager.markCommitted txHash)
        {.retrying now entries}
  | failed {now : Instant} {entry : CrossShardRetryEntry} {rest : List CrossShardRetryEntry}
      {crossTx : CrossShardTransaction}
      (registered : manager.crossShardTxs.lookup entry.txHash = some crossTx) :
      Outcome (.retryFailing now entry rest) (manager.markFailed entry.txHash)
        {.retryRefunding now crossTx entry rest}
  | forgotten {now : Instant} {entry : CrossShardRetryEntry} {rest : List CrossShardRetryEntry}
      (absent : manager.crossShardTxs.lookup entry.txHash = none) :
      Outcome (.retryFailing now entry rest) manager {.retrying now rest}
  | refunded {now : Instant} {crossTx : CrossShardTransaction} {entry : CrossShardRetryEntry}
      {entries : List CrossShardRetryEntry} :
      Outcome (.retryRefunding now crossTx entry entries) (manager.refund entry.sourceShard crossTx)
        {.retrying now entries}
  | timedOut : Outcome .timingOut (manager.timeOut access).1
      {.timeoutRefunding (manager.timedOutTxs access.iteration access.now)}
  | settled : Outcome (.timeoutRefunding []) manager 0
  | timeoutRefunded {txHash : Hash} {crossTx : CrossShardTransaction}
      {rest : List (Hash × CrossShardTransaction)} :
      Outcome (.timeoutRefunding ((txHash, crossTx) :: rest))
        (manager.refund crossTx.sourceShard crossTx)
        {.timeoutRefunding rest}

theorem outcome_advance (task : ShardTask) :
    Outcome crypto access manager task (manager.advance crypto access task).1
      (manager.advance crypto access task).2 := by
  cases task with
  | called txHash crossTx =>
    simp only [advance]
    split
    · exact .sufficient
    · exact .insufficient
  | checked txHash crossTx => exact .debited
  | debited txHash crossTx =>
    simp only [advance, dispatch]
    split
    · exact .sent ‹_›
    · exact .refused ‹_›
  | committing txHash => exact .committed
  | recording receiver shardId blockNumber =>
    simp only [advance, record]
    split
    · exact .recorded
    · exact .outdated
  | draining receiver => exact .drained
  | processing receiver entries stillPending =>
    cases entries with
    | nil => exact .processed
    | cons entry rest =>
      simp only [advance, process]
      split
      · exact .confirmed ‹_›
      · exact .unconfirmed (Bool.eq_false_iff.mpr ‹_›)
  | crediting receiver entry entries stillPending => exact .credited
  | retrying now entries =>
    cases entries with
    | nil => exact .retried
    | cons entry rest =>
      simp only [advance, retry]
      split
      · exact .resent ‹_›
      · split
        · exact .exhausted ‹_›
        · exact .requeued ‹_›
  | retryCommitting now txHash entries => exact .retryCommitted
  | retryFailing now entry entries =>
    simp only [advance, fail]
    split
    · exact .failed ‹_›
    · exact .forgotten ‹_›
  | retryRefunding now crossTx entry entries => exact .refunded
  | timingOut => exact .timedOut
  | timeoutRefunding refunds =>
    cases refunds with
    | nil => exact .settled
    | cons first rest => exact .timeoutRefunded

end ShardManager

structure ShardSystem where
  manager : ShardManager
  tasks : Multiset ShardTask

inductive ShardStep where
  | addTransaction (tx : Transaction) (now : Instant)
  | registerMined (tx : Transaction) (now : Instant)
  | processCrossShardTransaction (txHash : Hash)
  | sendStateSync (accepting : Bool) (targetShard shardId : ℕ) (blockNumber : U64)
  /-- The receiver of a shard takes the next message of its channel. -/
  | recv (shardId : ℕ)
  /-- The retry worker takes the entries that are due. -/
  | tick (now : Instant)
  | advance (task : ShardTask) (access : ShardAccess)
  | replayWal (accepting : Receipt → Bool)
  /-- Everything but the log is lost. -/
  | crash

namespace ShardSystem

variable (crypto : Crypto) (system : ShardSystem)

def start (manager : ShardManager) : ShardSystem where
  manager
  tasks := 0

def Busy (party : Party) : Prop :=
  ∃ task ∈ system.tasks, task.party = some party

instance (party : Party) : Decidable (system.Busy party) :=
  Multiset.decidableExistsMultiset

def spawn (task : ShardTask) : ShardSystem :=
  { system with tasks := task ::ₘ system.tasks }

def processCrossShardTransaction (txHash : Hash) : ShardSystem :=
  match system.manager.crossShardTxs.lookup txHash with
  | some crossTx => system.spawn (.called txHash crossTx)
  | none => system

/-- The task that a message starts. -/
def handle (receiver : ℕ) : CrossShardMessage → ShardTask
  | .receipt receipt => .processing receiver [receipt.toPending] []
  | .stateSync shardId blockNumber => .recording receiver shardId blockNumber

def recv (shardId : ℕ) : ShardSystem :=
  if shardId < system.manager.config.shardCount ∧ ¬ system.Busy (.receiver shardId) then
    match system.manager.channels shardId with
    | [] => system
    | message :: rest =>
      { system with
          manager := { system.manager with
            channels := Function.update system.manager.channels shardId rest } }.spawn
        (handle shardId message)
  else system

def tick (now : Instant) : ShardSystem :=
  if system.Busy .retryWorker then system
  else
    let queue := system.manager.retryQueue
    { system with
        manager := { system.manager with retryQueue := queue.dropWhile (isDue now) } }.spawn
      (.retrying now (queue.takeWhile (isDue now)))

def advance (task : ShardTask) (access : ShardAccess) : ShardSystem :=
  if task ∈ system.tasks then
    { manager := (system.manager.advance crypto access task).1
      tasks := Custody.replace system.tasks task (system.manager.advance crypto access task).2 }
  else system

def crash : ShardSystem :=
  start (new system.manager.config system.manager.shardsExist system.manager.wal)

def apply (step : ShardStep) (system : ShardSystem) : ShardSystem :=
  match step with
  | .addTransaction tx now => { system with manager := system.manager.addTransaction crypto tx now }
  | .registerMined tx now => { system with manager := system.manager.registerMined crypto tx now }
  | .processCrossShardTransaction txHash => system.processCrossShardTransaction txHash
  | .sendStateSync accepting targetShard shardId blockNumber =>
    { system with manager :=
      system.manager.sendStateSync accepting targetShard shardId blockNumber }
  | .recv shardId => system.recv shardId
  | .tick now => system.tick now
  | .advance task access => system.advance crypto task access
  | .replayWal accepting => { system with manager := system.manager.replayWal accepting }
  | .crash => system.crash

/-- Two shards, which the first byte of an address tells apart. -/
def twoShards : ShardConfig where
  shardCount := 2
  enableCrossShard := true
  assignmentStrategy := .addressBased
  crossShardTimeoutSecs := 300

def crossShardTransfer : Transaction :=
  { Transaction.new Crypto.sample 7 (BitVec.ofNat 160 (2 ^ 152 + 5)) 1000 50 0 with hash := 9 }

/-- The transfer as it is registered at the start of the clock. -/
def transferRecord : CrossShardTransaction where
  tx := crossShardTransfer
  sourceShard := 0
  targetShard := 1
  status := .pending
  id := crossShardTransfer.hash
  pendingSince := some 0

/-- What the receipt of the transfer is at its target. -/
def transferEntry : PendingReceiptEntry where
  receiptId := receiptId Crypto.sample crossShardTransfer.hash 0 1
  sourceShard := 0
  value := 1000
  «to» := crossShardTransfer.to
  sourceBlockHeight := 0

/-- An access at a given second, with channels that accept. -/
def accessAt (seconds : ℕ) : ShardAccess where
  accepting := true
  now := seconds * Instant.second
  iteration := SetIteration.ascendingBy BitVec.toNat Hash.toNat_injective

/-- The sender of the transfer owns 5000. -/
def funded : ShardManager :=
  (new twoShards (by decide) none).setBalance 0 7 5000

/-- The transfer is debited and sent. Its receipt has to wait at its target until a height of the
source shard is known. -/
def deliveredTransfer : List ShardStep :=
  [.addTransaction crossShardTransfer 0, .processCrossShardTransaction crossShardTransfer.hash,
    .advance (.called crossShardTransfer.hash transferRecord) (accessAt 1),
    .advance (.checked crossShardTransfer.hash transferRecord) (accessAt 1),
    .advance (.debited crossShardTransfer.hash transferRecord) (accessAt 1),
    .advance (.committing crossShardTransfer.hash) (accessAt 1), .recv 1,
    .advance (.processing 1 [transferEntry] []) (accessAt 2),
    .advance (.processing 1 [] [transferEntry]) (accessAt 2), .sendStateSync true 1 0 0, .recv 1,
    .advance (.recording 1 0 0) (accessAt 3), .advance (.draining 1) (accessAt 3),
    .advance (.processing 1 [transferEntry] []) (accessAt 3),
    .advance (.crediting 1 transferEntry [] []) (accessAt 3)]

end ShardSystem

end IronDag
