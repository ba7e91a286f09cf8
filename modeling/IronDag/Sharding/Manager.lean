import IronDag.Lib.Clock
import IronDag.Mining.Submission

/-!
The shard manager: how addresses are assigned to shards, the record of cross-shard transactions, and
the receipts that carry value from shard to shard.
-/

namespace IronDag

def maxShardTxPoolSize : ℕ := 50000

def crossShardMaxRetries : ℕ := 5

def maxChannelDepth : ℕ := 10000

inductive AssignmentStrategy where
  | consistentHashing
  | roundRobin
  | addressBased
  deriving DecidableEq, Repr

structure ShardConfig where
  shardCount : ℕ
  enableCrossShard : Bool
  assignmentStrategy : AssignmentStrategy
  /-- No transaction times out if this is zero. -/
  crossShardTimeoutSecs : ℕ
  deriving DecidableEq, Repr

inductive CrossShardStatus where
  | pending
  | committed
  | failed
  deriving DecidableEq, Repr

structure CrossShardTransaction where
  tx : Transaction
  sourceShard : ℕ
  targetShard : ℕ
  status : CrossShardStatus
  id : Hash
  pendingSince : Option Instant
  deriving DecidableEq

namespace CrossShardTransaction

def totalCost (crossTx : CrossShardTransaction) : U128 :=
  Word.saturatingAdd crossTx.tx.value crossTx.tx.fee

/-- Pending for as long as the timeout, if there is one. -/
def timedOut (timeoutSecs : ℕ) (now : Instant) (crossTx : CrossShardTransaction) : Bool :=
  let elapsed := match crossTx.pendingSince with
    | some since => Instant.asSecs (Instant.durationSince now since)
    | none => 0
  decide (0 < timeoutSecs) && decide (crossTx.status = .pending) && decide (timeoutSecs ≤ elapsed)

end CrossShardTransaction

/-- The `Receipt` message. -/
structure Receipt where
  txHash : Hash
  receiptId : Hash
  sourceShard : ℕ
  targetShard : ℕ
  value : U128
  «to» : Address
  sourceBlockHeight : U64
  deriving DecidableEq

inductive CrossShardMessage where
  | receipt (receipt : Receipt)
  | stateSync (shardId : ℕ) (blockNumber : U64)
  deriving DecidableEq

structure CrossShardRetryEntry extends Receipt where
  retryCount : ℕ
  nextRetryAt : Instant
  deriving DecidableEq

structure PendingReceiptEntry where
  receiptId : Hash
  sourceShard : ℕ
  value : U128
  «to» : Address
  sourceBlockHeight : U64
  deriving DecidableEq

def Receipt.toPending (receipt : Receipt) : PendingReceiptEntry where
  receiptId := receipt.receiptId
  sourceShard := receipt.sourceShard
  value := receipt.value
  «to» := receipt.to
  sourceBlockHeight := receipt.sourceBlockHeight

structure Shard where
  blockchain : Blockchain
  transactionPool : List Transaction
  crossShardOutgoing : List Hash
  crossShardIncoming : List Hash

namespace Shard

def new : Shard where
  blockchain := Blockchain.new
  transactionPool := []
  crossShardOutgoing := []
  crossShardIncoming := []

/-- A full pool gives up its oldest transactions. -/
def addTransaction (shard : Shard) (tx : Transaction) : Shard :=
  { shard with
      transactionPool :=
        shard.transactionPool.drop (shard.transactionPool.length + 1 - maxShardTxPoolSize) ++ [tx] }

@[simp] theorem blockchain_addTransaction (shard : Shard) (tx : Transaction) :
    (shard.addTransaction tx).blockchain = shard.blockchain := by
  rw [addTransaction]

end Shard

structure ShardManager where
  config : ShardConfig
  /-- A manager without shards cannot be created. -/
  shardsExist : 0 < config.shardCount
  /-- The shards and the channels are those below the shard count. -/
  shards : ℕ → Shard
  channels : ℕ → List CrossShardMessage
  crossShardTxs : Table Hash CrossShardTransaction
  retryQueue : List CrossShardRetryEntry
  crossShardBlockHeights : Table ℕ U64
  pendingReceipts : List PendingReceiptEntry
  /-- The receipts in the log, oldest first, if there is a log. -/
  wal : Option (List Receipt)

namespace ShardManager

/-- A manager without transactions, before its log is replayed. -/
def new (config : ShardConfig) (shardsExist : 0 < config.shardCount) (wal : Option (List Receipt)) :
    ShardManager where
  config
  shardsExist
  shards := fun _ => Shard.new
  channels := fun _ => []
  crossShardTxs := ∅
  retryQueue := []
  crossShardBlockHeights := ∅
  pendingReceipts := []
  wal

variable (crypto : Crypto) (manager : ShardManager)

/-- `u64::from_le_bytes` of the first eight bytes. -/
def leadingWord (bytes : Bytes) : ℕ :=
  (bytes.take 8).foldr (fun byte rest => byte.toNat + 256 * rest) 0

def getShardForAddress (address : Address) : ℕ :=
  match manager.config.assignmentStrategy with
  | .consistentHashing | .roundRobin =>
    leadingWord (Bytes.be (crypto.blake3 (Bytes.be address))) % manager.config.shardCount
  | .addressBased => leadingWord (Bytes.be address) % manager.config.shardCount

/-- The shards of the sender and of the receiver; a deployment stays in the sender's shard. -/
def routeTransactionFull (tx : Transaction) : ℕ × ℕ :=
  let sourceShard := manager.getShardForAddress crypto tx.from
  (sourceShard,
    if tx.to ≠ Address.zero then manager.getShardForAddress crypto tx.to else sourceShard)

theorem getShardForAddress_lt (address : Address) :
    manager.getShardForAddress crypto address < manager.config.shardCount := by
  unfold getShardForAddress
  cases manager.config.assignmentStrategy <;> exact Nat.mod_lt _ manager.shardsExist

theorem sourceShard_lt (tx : Transaction) :
    (manager.routeTransactionFull crypto tx).1 < manager.config.shardCount :=
  manager.getShardForAddress_lt crypto tx.from

def modifyShard (shardId : ℕ) (change : Shard → Shard) : ShardManager :=
  { manager with shards :=
    Function.update manager.shards shardId (change (manager.shards shardId)) }

def getBalance (shardId : ℕ) (address : Address) : U128 :=
  (manager.shards shardId).blockchain.getBalance address

def setBalance (shardId : ℕ) (address : Address) (balance : U128) : ShardManager :=
  manager.modifyShard shardId fun shard =>
    { shard with blockchain := shard.blockchain.setBalance address balance }

/-- Adds to a balance of a shard, if the shard exists. -/
def addBalance (shardId : ℕ) (address : Address) (amount : U128) : ShardManager :=
  if shardId < manager.config.shardCount then
    manager.setBalance shardId address
      (Word.saturatingAdd (manager.getBalance shardId address) amount)
  else manager

def registerCrossShardTransaction (tx : Transaction) (sourceShard targetShard : ℕ) (now : Instant) :
    ShardManager :=
  { manager with
      crossShardTxs := manager.crossShardTxs.insert tx.hash
        { tx, sourceShard, targetShard, status := .pending, id := tx.hash, pendingSince :=
          some now } }

def hasCrossShardTransaction (txHash : Hash) : Bool :=
  (manager.crossShardTxs.lookup txHash).isSome

/-- Changes what is recorded of a transaction, if it is registered. -/
def updateCrossShardTx (txHash : Hash) (change : CrossShardTransaction → CrossShardTransaction) :
    ShardManager :=
  match manager.crossShardTxs.lookup txHash with
  | some crossTx =>
    { manager with crossShardTxs := manager.crossShardTxs.insert txHash (change crossTx) }
  | none => manager

/-- The receipt of a transaction was sent. -/
def markCommitted (txHash : Hash) : ShardManager :=
  manager.updateCrossShardTx txHash fun crossTx =>
    { crossTx with status := .committed, pendingSince := none }

/-- The receipt of a transaction was given up after the last retry. -/
def markFailed (txHash : Hash) : ShardManager :=
  manager.updateCrossShardTx txHash fun crossTx => { crossTx with status := .failed }

def markTimedOut (txHash : Hash) : ShardManager :=
  manager.updateCrossShardTx txHash fun crossTx =>
    { crossTx with status := .failed, pendingSince := none }

def addTransaction (tx : Transaction) (now : Instant) : ShardManager :=
  let (fromShard, toShard) := manager.routeTransactionFull crypto tx
  if fromShard ≠ toShard ∧ manager.config.enableCrossShard then
    let recorded := manager.registerCrossShardTransaction tx fromShard toShard now
    let queued := recorded.modifyShard fromShard fun shard =>
      let filled := shard.addTransaction tx
      { filled with crossShardOutgoing := filled.crossShardOutgoing ++ [tx.hash] }
    queued.modifyShard toShard fun shard =>
      { shard with crossShardIncoming := shard.crossShardIncoming ++ [tx.hash] }
  else manager.modifyShard fromShard fun shard => shard.addTransaction tx

/-- How the processor of mined blocks sees to it that a cross-shard transaction is registered before
it has it processed. -/
def registerMined (tx : Transaction) (now : Instant) : ShardManager :=
  let (fromShard, toShard) := manager.routeTransactionFull crypto tx
  if fromShard ≠ toShard ∧ manager.hasCrossShardTransaction tx.hash = false then
    manager.registerCrossShardTransaction tx fromShard toShard now
  else manager

/-- The receipt is logged first, whether or not the channel then takes it. A channel that is full or
not `accepting` refuses. -/
def sendReceipt (accepting : Bool) (receipt : Receipt) : Bool × ShardManager :=
  if receipt.targetShard < manager.config.shardCount then
    let logged := { manager with wal := manager.wal.map (· ++ [receipt]) }
    let channel := manager.channels receipt.targetShard
    if accepting ∧ channel.length < maxChannelDepth then
      (true,
        { logged with
            channels := Function.update manager.channels receipt.targetShard
              (channel ++ [.receipt receipt]) })
    else (false, logged)
  else (false, manager)

def sendStateSync (accepting : Bool) (targetShard shardId : ℕ) (blockNumber : U64) : ShardManager :=
  let channel := manager.channels targetShard
  if targetShard < manager.config.shardCount ∧ accepting ∧ channel.length < maxChannelDepth then
    { manager with
        channels := Function.update manager.channels targetShard
          (channel ++ [.stateSync shardId blockNumber]) }
  else manager

/-- Sends every logged receipt again; what the channels refuse is not retried. -/
def replayWal (accepting : Receipt → Bool) : ShardManager :=
  (manager.wal.getD []).foldl
    (fun replayed receipt => (replayed.sendReceipt (accepting receipt) receipt).2) manager

def receiptId (txHash : Hash) (sourceShard targetShard : ℕ) : Hash :=
  crypto.keccak256 (Bytes.be txHash ++ Bytes.ofNatLE 8 sourceShard ++ Bytes.ofNatLE 8 targetShard)

def receiptIdOf (txHash : Hash) (crossTx : CrossShardTransaction) : Hash :=
  receiptId crypto txHash crossTx.sourceShard crossTx.targetShard

/-- The receipt that `process_cross_shard_transaction` sends. -/
def receiptFor (txHash : Hash) (crossTx : CrossShardTransaction) : Receipt where
  txHash
  receiptId := receiptIdOf crypto txHash crossTx
  sourceShard := crossTx.sourceShard
  targetShard := crossTx.targetShard
  value := crossTx.tx.value
  «to» := crossTx.tx.to
  sourceBlockHeight := (manager.shards crossTx.sourceShard).blockchain.latestBlockNumber

def validateSource (crossTx : CrossShardTransaction) : Except BlockchainError Unit :=
  if manager.getBalance crossTx.sourceShard crossTx.tx.from < crossTx.totalCost then
    .error (.invalidTransaction "Insufficient balance for cross-shard transaction")
  else .ok ()

/-- The deduction from the sender, which reads the balance anew. -/
def debit (crossTx : CrossShardTransaction) : ShardManager :=
  manager.setBalance crossTx.sourceShard crossTx.tx.from
    (Word.saturatingSub (manager.getBalance crossTx.sourceShard crossTx.tx.from) crossTx.totalCost)

def queueForRetry (receipt : Receipt) (now : Instant) : ShardManager :=
  { manager with
      retryQueue := manager.retryQueue ++
        [{ receipt with retryCount := 0, nextRetryAt := now + Instant.second }] }

def isConfirmed (entry : PendingReceiptEntry) : Bool :=
  match manager.crossShardBlockHeights.lookup entry.sourceShard with
  | some height => decide (entry.sourceBlockHeight ≤ height)
  | none => false

/-- The credit at the shard of the receiver. The receipt id is not looked at. -/
def processReceipt (entry : PendingReceiptEntry) : ShardManager :=
  manager.addBalance (manager.getShardForAddress crypto entry.to) entry.to entry.value

/-- A height counts only if it is higher than the one known before. -/
def advances (shardId : ℕ) (blockNumber : U64) : Bool :=
  match manager.crossShardBlockHeights.lookup shardId with
  | some previous => decide (previous < blockNumber)
  | none => true

def recordHeight (shardId : ℕ) (blockNumber : U64) : ShardManager :=
  { manager with crossShardBlockHeights :=
    manager.crossShardBlockHeights.insert shardId blockNumber }

def isDue (now : Instant) (entry : CrossShardRetryEntry) : Bool :=
  decide (entry.nextRetryAt ≤ now)

def retryBackoffSecs (retryCount : ℕ) : ℕ :=
  min (2 ^ retryCount) 60

def requeue (entry : CrossShardRetryEntry) (now : Instant) : ShardManager :=
  let retryCount := entry.retryCount + 1
  { manager with
      retryQueue := manager.retryQueue ++
        [{ entry with retryCount, nextRetryAt :=
          now + retryBackoffSecs retryCount * Instant.second }] }

/-- The registered transactions that have timed out, in the order in which the record is
iterated. -/
def timedOutTxs (iteration : SetIteration Hash) (now : Instant) :
    List (Hash × CrossShardTransaction) :=
  (iteration.toList manager.crossShardTxs.keys).filterMap fun txHash =>
    match manager.crossShardTxs.lookup txHash with
    | some crossTx =>
      if crossTx.timedOut manager.config.crossShardTimeoutSecs now then some (txHash, crossTx)
      else none
    | none => none

/-- What a failed transaction gets back. -/
def refund (sourceShard : ℕ) (crossTx : CrossShardTransaction) : ShardManager :=
  manager.addBalance sourceShard crossTx.tx.from crossTx.totalCost

end ShardManager

end IronDag
