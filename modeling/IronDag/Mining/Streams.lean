import IronDag.Lib.Run
import IronDag.Mining.Mempool
import IronDag.Mining.Ordering
import IronDag.Mining.Trimming

namespace IronDag

def streamAMaxTxs : ℕ := 10000

def streamBMaxTxs : ℕ := 5000

def streamCMaxTxs : ℕ := 1000

/-- What distinguishes the loops. Stream C submits its blocks without proof of work. -/
structure StreamLoop where
  streamType : StreamType
  maxTxs : ℕ
  provesWork : Bool

def mineStreamA : StreamLoop where
  streamType := .streamA
  maxTxs := streamAMaxTxs
  provesWork := true

def mineStreamB : StreamLoop where
  streamType := .streamB
  maxTxs := streamBMaxTxs
  provesWork := true

def mineStreamC : StreamLoop where
  streamType := .streamC
  maxTxs := streamCMaxTxs
  provesWork := false

def StreamType.loop : StreamType → StreamLoop
  | .streamA => mineStreamA
  | .streamB => mineStreamB
  | .streamC => mineStreamC

@[simp] theorem StreamType.loop_streamType {streamType : StreamType} :
    streamType.loop.streamType = streamType := by
  cases streamType <;> rfl

/-- `sort_unstable_by_key` with the highest fee first: any such arrangement. -/
structure FeeSort where
  sort : List PooledTransaction → List PooledTransaction
  perm : ∀ pool, (sort pool).Perm pool
  descending : ∀ pool, (sort pool).Pairwise fun earlier later => later.tx.fee ≤ earlier.tx.fee

namespace FeeSort

/-- Ascending in this key is descending in the fee. -/
def feeKey (pooled : PooledTransaction) : ℕ :=
  2 ^ 128 - pooled.tx.fee.toNat

/-- Sorting by insertion. -/
def insertion : FeeSort where
  sort := List.insertionSort (SetIteration.KeyLE feeKey)
  perm := List.perm_insertionSort _
  descending := by
    intro pool
    refine (List.pairwise_insertionSort (SetIteration.KeyLE feeKey) pool).imp ?_
    intro earlier later ordered
    have key : 2 ^ 128 - earlier.tx.fee.toNat ≤ 2 ^ 128 - later.tx.fee.toNat := ordered
    have bound := later.tx.fee.isLt
    rw [BitVec.le_def]
    omega

end FeeSort

/-- What the draining loop works on. -/
structure Drain where
  pool : Pool
  poolTxHashes : Finset Hash
  inFlightTxs : Finset Hash
  txs : List Transaction

def inFlightLimit : ℕ := 10000

namespace Drain

/-- The in-flight set as the loop finds it: emptied where it has grown too large. -/
def marks (drain : Drain) : Finset Hash :=
  if inFlightLimit < drain.inFlightTxs.card then ∅ else drain.inFlightTxs

/-- The first transaction of the pool leaves it, and the last one takes its place. It goes to the
stream unless it has expired or is marked as in flight. -/
def take (now : Instant) (drain : Drain) (pooled : PooledTransaction) : Drain :=
  let popped := { drain with
    pool := drain.pool.swapRemove 0
    poolTxHashes := drain.poolTxHashes.erase pooled.hash }
  if pooled.isExpired now then popped
  else if pooled.hash ∈ drain.marks then { popped with inFlightTxs := drain.marks }
  else { popped with inFlightTxs := insert pooled.hash drain.marks, txs :=
    drain.txs ++ [pooled.tx] }

/-- Only what goes to the stream counts. -/
def loop (now : Instant) (count : ℕ) : ℕ → Drain → Drain
  | 0, drain => drain
  | fuel + 1, drain =>
    if drain.txs.length < count then
      match drain.pool.transactions with
      | [] => drain
      | pooled :: _ => loop now count fuel (drain.take now pooled)
    else drain

/-- What each turn of the loop keeps, the whole loop keeps. -/
theorem loop_keeps {property : Drain → Prop} {now : Instant}
    (kept : ∀ drain pooled rest, drain.pool.transactions = pooled :: rest → property drain →
      property (drain.take now pooled))
    (count fuel : ℕ) (drain : Drain) (holds : property drain) :
    property (loop now count fuel drain) := by
  induction fuel generalizing drain with
  | zero => exact holds
  | succ fuel ih =>
    unfold loop
    split
    · split
      · exact holds
      · rename_i pooled rest shape
        exact ih _ (kept drain pooled rest shape holds)
    · exact holds

end Drain

/-- What a round meets when it starts. -/
structure RoundStart where
  now : Instant
  feeSort : FeeSort
  policy : OrderingPolicy
  context : OrderingContext
  picks : (i : ℕ) → Fin (i + 1)

/-- A start that leaves the order to the loop. -/
def RoundStart.inOrder (now : Instant) : RoundStart where
  now := now
  feeSort := .insertion
  policy := .fifo
  context := { arrivalTimes := ∅, currentTime := 0 }
  picks := fun i => ⟨0, Nat.succ_pos i⟩

namespace MiningManager

/-- The loop over the sorted pool. Each turn takes one transaction out of it. -/
def drained (manager : MiningManager) (loop : StreamLoop) (start : RoundStart) : Drain :=
  let pool := manager.streamPool loop.streamType
  Drain.loop start.now (min pool.size loop.maxTxs) pool.transactions.length
    { pool := { pool with transactions := start.feeSort.sort pool.transactions }
      poolTxHashes := manager.poolTxHashes
      inFlightTxs := manager.inFlightTxs
      txs := [] }

/-- What is drained also leaves the pools of the other streams. -/
def drain (manager : MiningManager) (loop : StreamLoop) (start : RoundStart) :
    List Transaction × MiningManager :=
  let drained := manager.drained loop start
  let cleanup := (drained.txs.map Transaction.hash).toFinset
  (orderTransactions start.policy start.context start.picks drained.txs,
    { manager with
        streamPool := fun other =>
          if other = loop.streamType then drained.pool
          else (manager.streamPool other).retain fun pooled => pooled.hash ∉ cleanup
        poolTxHashes := drained.poolTxHashes
        inFlightTxs := drained.inFlightTxs })

def unmark (manager : MiningManager) (txs : List Transaction) : MiningManager :=
  { manager with inFlightTxs := manager.inFlightTxs \ (txs.map Transaction.hash).toFinset }

def pushAll (pool : Pool) (now : Instant) (txs : List Transaction) : Pool :=
  txs.foldl (fun pool tx => pool.push { tx := tx, submittedAt := now }) pool

/-- The transactions of a failed round go back to the pool of its stream. -/
def putBack (manager : MiningManager) (streamType : StreamType) (now : Instant)
    (txs : List Transaction) : MiningManager :=
  (manager.withPool streamType (pushAll (manager.streamPool streamType) now txs)).unmark txs

/-- The transactions of a rejected block go to the legacy pool. -/
def recover (manager : MiningManager) (now : Instant) (txs : List Transaction) : MiningManager :=
  { manager with txPool := pushAll manager.txPool now txs }.unmark txs

/-- A future transaction goes to the legacy pool after the commit of a block. -/
def promoteToLegacy (pooled : PooledTransaction) (manager : MiningManager) : MiningManager :=
  { manager with
      txPool := manager.txPool.push pooled
      poolTxHashes := insert pooled.hash manager.poolTxHashes }

def commit (manager : MiningManager) (view : ChainView) (iteration : SetIteration Address)
    (txs : List Transaction) : MiningManager :=
  let cleared := (manager.unmark txs).forgetAll (txs.map Transaction.hash)
  (iteration.toList (txs.map Transaction.from).toFinset).foldl
    (fun manager sender => manager.releaseQueue promoteToLegacy sender (view.getNonce sender))
    cleared

end MiningManager

/-- What a round meets after it has drained its pool. -/
structure RoundEnd where
  parentHashes : List Hash
  parentsValid : Bool
  serializedSize : List Transaction → Option ℕ
  /-- Mining finds a nonce. -/
  found : Bool
  /-- The processor still receives. -/
  delivered : Bool
  now : Instant

/-- A round that comes to a block. -/
def RoundEnd.mined : RoundEnd where
  parentHashes := [0]
  parentsValid := true
  serializedSize := fun txs => some (200 * txs.length)
  found := true
  delivered := true
  now := 0

/-- What becomes of the transactions of a round. -/
inductive Settlement where
  | dropped
  | returned (txs : List Transaction)
  | submitted (txs : List Transaction)

/-- The way of a round to its end. -/
def StreamLoop.settle (loop : StreamLoop) (finish : RoundEnd) (txs : List Transaction) :
    Settlement :=
  if finish.parentHashes = [] then .dropped
  else if finish.parentsValid = false then .returned txs
  else
    let trimmed := trimBlockTransactions finish.serializedSize txs
    if loop.provesWork = true ∧ finish.found = false then .returned trimmed
    else if finish.delivered then .submitted trimmed
    else .dropped

/-- The pools, what each stream holds between the two steps of a round, and the submitted blocks
that wait for the processor. -/
structure MiningState where
  manager : MiningManager
  hands : StreamType → Option (List Transaction)
  channel : List (List Transaction)

inductive MiningStep where
  | addTransaction (view : ChainView) (now : Instant) (tx : Transaction)
  | evictExpiredTransactions (now : Instant)
  | cleanupStaleFutureTxs (now : Instant)
  | startRound (streamType : StreamType) (start : RoundStart)
  | endRound (streamType : StreamType) (finish : RoundEnd)
  /-- The next block is committed or rejected; the view is that of the chain afterwards. -/
  | processBlock (committed : Bool) (view : ChainView) (iteration : SetIteration Address)
      (now : Instant)

namespace MiningState

def new (singleStreamMode : Bool) : MiningState where
  manager := .new singleStreamMode
  hands := fun _ => none
  channel := []

/-- A stream that is within a round does not start another one. -/
def startRound (state : MiningState) (streamType : StreamType) (start : RoundStart) : MiningState :=
  match state.hands streamType with
  | some _ => state
  | none =>
    { state with
        manager := (state.manager.drain streamType.loop start).2
        hands := Function.update state.hands streamType
          (some (state.manager.drain streamType.loop start).1) }

def endRound (state : MiningState) (streamType : StreamType) (finish : RoundEnd) : MiningState :=
  match state.hands streamType with
  | none => state
  | some txs =>
    let idle := { state with hands := Function.update state.hands streamType none }
    match streamType.loop.settle finish txs with
    | .dropped => idle
    | .returned back => { idle with manager := state.manager.putBack streamType finish.now back }
    | .submitted block => { idle with channel := state.channel ++ [block] }

def processBlock (state : MiningState) (committed : Bool) (view : ChainView)
    (iteration : SetIteration Address) (now : Instant) : MiningState :=
  match state.channel with
  | [] => state
  | block :: rest =>
    { state with
        manager :=
          if committed then state.manager.commit view iteration block else
            state.manager.recover now block
        channel := rest }

/-- A transfer of one sender, with a fee that covers a base fee of 1. -/
def pooledTransfer (value : U128) (nonce : U64) : Transaction :=
  Transaction.new Crypto.sample Transaction.sampleSender 5 value 21000 nonce

/-- The chain after `nonce` transactions of the sender. -/
def viewAt (nonce : U64) : ChainView where
  getNonce := fun _ => nonce
  baseFee := 1

def apply (step : MiningStep) (state : MiningState) : MiningState :=
  match step with
  | .addTransaction view now tx =>
    { state with manager := (state.manager.addTransaction view now tx).2 }
  | .evictExpiredTransactions now =>
    { state with manager := state.manager.evictExpiredTransactions now }
  | .cleanupStaleFutureTxs now => { state with manager := state.manager.cleanupStaleFutureTxs now }
  | .startRound streamType start => state.startRound streamType start
  | .endRound streamType finish => state.endRound streamType finish
  | .processBlock committed view iteration now => state.processBlock committed view iteration now

end MiningState

end IronDag
