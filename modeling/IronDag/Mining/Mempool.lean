import Mathlib.Data.List.MinMax
import IronDag.Chain.Error
import IronDag.Lib.Clock
import IronDag.Lib.TableValues
import IronDag.Lib.Vec
import IronDag.Mining.Submission

/-!
The transaction pools of a node without a shard manager: one pool for each stream, the legacy pool
that takes transactions back from failed blocks, a queue of future nonces for each sender, and the
set of hashes against which a new transaction is checked.
-/

namespace IronDag

structure PooledTransaction where
  tx : Transaction
  submittedAt : Instant
  deriving DecidableEq, Repr

def txTtlSecs : ℕ := 600

def maxFutureNonceGap : U64 := 16

def maxFutureTxsPerSender : ℕ := 16

def futureTxTtlSecs : ℕ := 300

def maxStreamAPoolSize : ℕ := 60000

def maxStreamBPoolSize : ℕ := 30000

def maxStreamCPoolSize : ℕ := 10000

def maxStreamPoolSize : StreamType → ℕ
  | .streamA => maxStreamAPoolSize
  | .streamB => maxStreamBPoolSize
  | .streamC => maxStreamCPoolSize

namespace PooledTransaction

def hash (pooled : PooledTransaction) : Hash :=
  pooled.tx.hash

def ageSecs (pooled : PooledTransaction) (now : Instant) : ℕ :=
  Instant.asSecs (Instant.durationSince now pooled.submittedAt)

/-- The check of a stream when it takes the transaction. Eviction goes by `ageSecs` directly and
begins a second earlier. -/
def isExpired (pooled : PooledTransaction) (now : Instant) : Bool :=
  txTtlSecs < pooled.ageSecs now

end PooledTransaction

/-- A pool and the counter kept beside it. -/
structure Pool where
  transactions : List PooledTransaction
  size : ℕ
  deriving DecidableEq, Repr

namespace Pool

def empty : Pool where
  transactions := []
  size := 0

def push (pool : Pool) (pooled : PooledTransaction) : Pool where
  transactions := pool.transactions ++ [pooled]
  size := pool.size + 1

def swapRemove (pool : Pool) (index : ℕ) : Pool where
  transactions := Vec.swapRemove pool.transactions index
  size := pool.size - 1

def retain (pool : Pool) (keep : PooledTransaction → Bool) : Pool where
  transactions := pool.transactions.filter keep
  size := pool.size - (pool.transactions.length - (pool.transactions.filter keep).length)

/-- The position of the first transaction with the lowest fee. -/
def lowestFee (pool : Pool) : Option (ℕ × PooledTransaction) :=
  (pool.transactions.argmin fun pooled => pooled.tx.fee.toNat).map fun lowest =>
    (pool.transactions.idxOf lowest, lowest)

end Pool

/-- The future transactions of one sender, by nonce. -/
abbrev SenderQueue := Table U64 PooledTransaction

structure MiningManager where
  /-- The legacy pool. -/
  txPool : Pool
  streamPool : StreamType → Pool
  txDistributionCounter : U64
  singleStreamMode : Bool
  inFlightTxs : Finset Hash
  poolTxHashes : Finset Hash
  futureTxs : Table Address SenderQueue

/-- What the chain answers at the moment: the nonce of each account, and the base fee of stream
A. -/
structure ChainView where
  getNonce : Address → U64
  baseFee : U128

namespace MiningManager

def new (singleStreamMode : Bool) : MiningManager where
  txPool := Pool.empty
  streamPool := fun _ => Pool.empty
  txDistributionCounter := 0
  singleStreamMode := singleStreamMode
  inFlightTxs := ∅
  poolTxHashes := ∅
  futureTxs := ∅

variable (manager : MiningManager)

def withPool (streamType : StreamType) (pool : Pool) : MiningManager :=
  { manager with streamPool := Function.update manager.streamPool streamType pool }

/-- The hash is taken out of the set, so that its transaction may be submitted again. -/
def forget (hash : Hash) : MiningManager :=
  { manager with poolTxHashes := manager.poolTxHashes.erase hash }

def evictLowestFeeTxIfHigher (streamType : StreamType) (newTxFee : U128) : Bool × MiningManager :=
  match (manager.streamPool streamType).lowestFee with
  | none => (false, manager)
  | some (index, evicted) =>
    if evicted.tx.fee < newTxFee then
      (true, (manager.withPool streamType
        ((manager.streamPool streamType).swapRemove index)).forget evicted.hash)
    else (false, manager)

def targetStream : StreamType :=
  if manager.singleStreamMode then .streamA
  else if manager.txDistributionCounter % 3 = 0 then .streamA
  else if manager.txDistributionCounter % 3 = 1 then .streamB
  else .streamC

/-- Room is made at the cap, by eviction. -/
def makeRoom (streamType : StreamType) (newTxFee : U128) : MiningManager :=
  if maxStreamPoolSize streamType ≤ (manager.streamPool streamType).size then
    (manager.evictLowestFeeTxIfHigher streamType newTxFee).2
  else manager

/-- The transaction enters the pool also where no other one was evicted for it. -/
def addToPoolInner (pooled : PooledTransaction) : MiningManager :=
  let target := manager.targetStream
  let roomy := manager.makeRoom target pooled.tx.fee
  { roomy.withPool target ((roomy.streamPool target).push pooled) with
      txDistributionCounter :=
        if manager.singleStreamMode then manager.txDistributionCounter else
          manager.txDistributionCounter + 1 }

/-- The loop that takes transactions with consecutive nonces out of a queue, each with `act`. -/
def releaseLoop (act : PooledTransaction → MiningManager → MiningManager) :
    ℕ → U64 → SenderQueue → MiningManager → SenderQueue × MiningManager
  | 0, _, queue, manager => (queue, manager)
  | fuel + 1, nextNonce, queue, manager =>
    match queue.lookup nextNonce with
    | none => (queue, manager)
    | some pooled =>
      releaseLoop act fuel (nextNonce + 1) (queue.erase nextNonce) (act pooled manager)

/-- A queue that becomes empty is removed. -/
def storeQueue (sender : Address) (queue : SenderQueue) : MiningManager :=
  { manager with
      futureTxs :=
        if queue = ∅ then manager.futureTxs.erase sender
        else manager.futureTxs.insert sender queue }

/-- The queue of `sender` is released from `nonce` on. A loop takes at most what is queued. -/
def releaseQueue (act : PooledTransaction → MiningManager → MiningManager) (sender : Address)
    (nonce : U64) : MiningManager :=
  match manager.futureTxs.lookup sender with
  | none => manager
  | some queue =>
    let (rest, released) := releaseLoop act queue.keys.card nonce queue manager
    released.storeQueue sender rest

/-- What each transaction taken from a queue keeps, the whole loop keeps. -/
theorem releaseLoop_keeps {property : MiningManager → Prop}
    {act : PooledTransaction → MiningManager → MiningManager}
    (kept : ∀ pooled manager, property manager → property (act pooled manager))
    (fuel : ℕ) (nonce : U64) (queue : SenderQueue) (manager : MiningManager)
    (holds : property manager) :
    property (releaseLoop act fuel nonce queue manager).2 := by
  induction fuel generalizing nonce queue manager with
  | zero => exact holds
  | succ fuel ih =>
    unfold releaseLoop
    split
    · exact holds
    · exact ih _ _ _ (kept _ _ holds)

/-- The hash is taken out here, and `add_to_pool_inner` does not put it back. -/
def promote (pooled : PooledTransaction) (manager : MiningManager) : MiningManager :=
  (manager.forget pooled.hash).addToPoolInner pooled

def promoteFutureTxs (view : ChainView) (sender : Address) : MiningManager :=
  manager.releaseQueue promote sender (view.getNonce sender)

def addTransaction (view : ChainView) (now : Instant) (tx : Transaction) :
    Except BlockchainError Unit × MiningManager :=
  if tx.hash ∈ manager.poolTxHashes then
    (.error (.validation "duplicate transaction"), manager)
  else
    let entered := { manager with poolTxHashes := insert tx.hash manager.poolTxHashes }
    if tx.canAffordBaseFee view.baseFee = false then
      let offered :=
        tx.maxFeePerGas.getD (tx.fee / (if tx.gasLimit < 1 then 1 else tx.gasLimit).setWidth 128)
      (.error (.validation
          s!"transaction max fee per gas ({offered.toNat}) below base fee ({view.baseFee.toNat})"),
        entered.forget tx.hash)
    else
      let expectedNonce := view.getNonce tx.from
      let queue := (entered.futureTxs.lookup tx.from).getD ∅
      if tx.nonce = expectedNonce then
        (.ok (),
          (entered.addToPoolInner { tx := tx, submittedAt := now }).promoteFutureTxs view tx.from)
      else if expectedNonce < tx.nonce ∧
        tx.nonce ≤ Word.saturatingAdd expectedNonce maxFutureNonceGap then
        if maxFutureTxsPerSender ≤ queue.keys.card then
          (.error (.validation "too many future-nonce transactions queued for sender"),
            entered.forget tx.hash)
        else if tx.nonce ∈ queue then
          (.error (.validation "transaction with this nonce already queued"),
            entered.forget tx.hash)
        else
          (.ok (),
            { entered with
                futureTxs := entered.futureTxs.insert tx.from
                  (queue.insert tx.nonce { tx := tx, submittedAt := now }) })
      else if tx.nonce < expectedNonce then
        (.error (.validation "nonce too low"), entered.forget tx.hash)
      else
        (.error (.validation "nonce too far ahead"), entered.forget tx.hash)

/-- The transactions of a pool that have reached their time to live. -/
def expiredIn (pool : Pool) (now : Instant) : List PooledTransaction :=
  pool.transactions.filter fun pooled => txTtlSecs ≤ pooled.ageSecs now

def unexpiredIn (pool : Pool) (now : Instant) : Pool :=
  pool.retain fun pooled => pooled.ageSecs now < txTtlSecs

def forgetAll (hashes : List Hash) : MiningManager :=
  { manager with poolTxHashes := manager.poolTxHashes \ hashes.toFinset }

def evictExpiredFrom (streamType : StreamType) (now : Instant) : MiningManager :=
  (manager.withPool streamType (unexpiredIn (manager.streamPool streamType) now)).forgetAll
    ((expiredIn (manager.streamPool streamType) now).map PooledTransaction.hash)

def evictExpiredFromLegacy (now : Instant) : MiningManager :=
  { manager with txPool := unexpiredIn manager.txPool now }.forgetAll
    ((expiredIn manager.txPool now).map PooledTransaction.hash)

def isStale (now : Instant) (pooled : PooledTransaction) : Bool :=
  futureTxTtlSecs ≤ pooled.ageSecs now

/-- The hashes of the transactions of a queue that `choose` picks. -/
def queueHashes (choose : PooledTransaction → Bool) (queue : SenderQueue) : Multiset Hash :=
  (queue.values.filter (choose ·)).map PooledTransaction.hash

/-- The hashes of all future transactions that `choose` picks. -/
def futureHashes (choose : PooledTransaction → Bool) (futureTxs : Table Address SenderQueue) :
    Multiset Hash :=
  futureTxs.values.bind (queueHashes choose)

def cleanupStaleFutureTxs (now : Instant) : MiningManager :=
  { manager with
      futureTxs :=
        (manager.futureTxs.mapValues (Table.retain fun _ pooled => !isStale now pooled)).retain
        fun _ queue => queue ≠ ∅
      poolTxHashes :=
        manager.poolTxHashes \ (futureHashes (isStale now) manager.futureTxs).toFinset }

def evictExpiredTransactions (now : Instant) : MiningManager :=
  ((((manager.evictExpiredFrom .streamA now).evictExpiredFrom .streamB now).evictExpiredFrom
    .streamC now).evictExpiredFromLegacy now).cleanupStaleFutureTxs now

end MiningManager

end IronDag
