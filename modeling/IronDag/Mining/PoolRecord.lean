import IronDag.Lib.Recorded
import IronDag.Mining.Streams

namespace IronDag

open Multiset

def Pool.Counted (pool : Pool) : Prop :=
  pool.size = pool.transactions.length

def Pool.hashes (pool : Pool) : Multiset Hash :=
  (pool.transactions.map PooledTransaction.hash : List Hash)

variable {pooled : PooledTransaction}

namespace Pool

variable {pool : Pool}

theorem Counted.push (counted : pool.Counted) (pooled : PooledTransaction) :
    (pool.push pooled).Counted := by
  have same : pool.size = pool.transactions.length := counted
  simp [Counted, Pool.push, same]

theorem Counted.swapRemove (counted : pool.Counted)
    (read : pool.transactions[index]? = some pooled) : (pool.swapRemove index).Counted := by
  have same : pool.size = pool.transactions.length := counted
  have removed := (Vec.swapRemove_perm read).length_eq
  rw [List.length_cons] at removed
  simp only [Counted, Pool.swapRemove]
  omega

theorem Counted.retain (counted : pool.Counted) (keep : PooledTransaction → Bool) :
    (pool.retain keep).Counted := by
  have same : pool.size = pool.transactions.length := counted
  have fewer := List.length_filter_le keep pool.transactions
  simp only [Counted, Pool.retain]
  omega

theorem Counted.pushAll (counted : pool.Counted) (now : Instant) (txs : List Transaction) :
    (MiningManager.pushAll pool now txs).Counted := by
  induction txs generalizing pool with
  | nil => exact counted
  | cons tx rest ih => exact ih (counted.push _)

theorem hashes_push {pool : Pool} : (pool.push pooled).hashes = pooled.hash ::ₘ pool.hashes := by
  simp only [hashes, push, List.map_append, List.map_singleton, ← coe_add, coe_singleton]
  rw [add_comm, singleton_add]

theorem hashes_swapRemove (read : pool.transactions[index]? = some pooled) :
    pool.hashes = pooled.hash ::ₘ (pool.swapRemove index).hashes :=
  (coe_eq_coe.mpr ((Vec.swapRemove_perm read).map PooledTransaction.hash)).symm

theorem hashes_retain (pool : Pool) (keep : PooledTransaction → Bool) : pool.hashes =
      ((pool.transactions.filter fun pooled => !keep pooled).map PooledTransaction.hash :
        List Hash) + (pool.retain keep).hashes := by
  have parted : ((pool.transactions.filter fun pooled => !keep pooled) ++
      pool.transactions.filter keep).Perm pool.transactions :=
    List.perm_append_comm.trans (List.filter_append_perm keep pool.transactions)
  rw [hashes, hashes, coe_add, ← List.map_append]
  exact coe_eq_coe.mpr (parted.map PooledTransaction.hash).symm

theorem getElem?_of_lowestFee (found : pool.lowestFee = some (index, pooled)) :
    pool.transactions[index]? = some pooled := by
  obtain ⟨lowest, least, same⟩ := Option.map_eq_some_iff.mp found
  obtain ⟨rfl, rfl⟩ := Prod.mk.inj same
  exact List.getElem?_idxOf (List.argmin_mem least)

end Pool

namespace MiningManager

def queuedHashes (manager : MiningManager) : Multiset Hash :=
  futureHashes (fun _ => true) manager.futureTxs

/-- The hashes in the stream pools and in the queues, once for each place. -/
def storedHashes (manager : MiningManager) : Multiset Hash :=
  (manager.streamPool .streamA).hashes + (manager.streamPool .streamB).hashes +
    (manager.streamPool .streamC).hashes + manager.queuedHashes

/-- The counters beside the pools count them. -/
structure Counted (manager : MiningManager) : Prop where
  streams : ∀ streamType, (manager.streamPool streamType).Counted
  legacy : manager.txPool.Counted

/-- The set has exactly the hashes of what is held, nothing is held in two places, and the counters
count. -/
structure Consistent (manager : MiningManager) : Prop where
  exact : ∀ hash, hash ∈ manager.poolTxHashes ↔ hash ∈ manager.storedHashes
  once : manager.storedHashes.Nodup
  counted : manager.Counted

/-- The future transaction of `sender` with a nonce. -/
def queuedAt (manager : MiningManager) (sender : Address) (nonce : U64) :
    Option PooledTransaction :=
  (manager.futureTxs.lookup sender).bind fun queue => queue.lookup nonce

variable {manager after : MiningManager}

theorem Counted.of_same (counted : manager.Counted)
    (streams : after.streamPool = manager.streamPool)
    (legacy : after.txPool = manager.txPool) : after.Counted :=
  ⟨streams ▸ counted.streams, legacy ▸ counted.legacy⟩

theorem Counted.withPool (counted : manager.Counted) (streamType : StreamType)
    (new : pool.Counted) : (manager.withPool streamType pool).Counted := by
  refine ⟨fun other => ?_, counted.legacy⟩
  by_cases same : other = streamType
  · subst same
    simpa [MiningManager.withPool] using new
  · simpa [MiningManager.withPool, same] using counted.streams other

/-- What is held outside the pool of one stream. -/
def elsewhere (manager : MiningManager) : StreamType → Multiset Hash
  | .streamA => (manager.streamPool .streamB).hashes +
      (manager.streamPool .streamC).hashes + manager.queuedHashes
  | .streamB => (manager.streamPool .streamA).hashes +
      (manager.streamPool .streamC).hashes + manager.queuedHashes
  | .streamC => (manager.streamPool .streamA).hashes +
      (manager.streamPool .streamB).hashes + manager.queuedHashes

theorem storedHashes_eq (manager : MiningManager) (streamType : StreamType) :
    manager.storedHashes =
      (manager.streamPool streamType).hashes + manager.elsewhere streamType := by
  cases streamType <;> simp only [storedHashes, elsewhere] <;> ac_rfl

theorem elsewhere_congr
    (others : ∀ other, other ≠ streamType → (after.streamPool other).hashes =
      (manager.streamPool other).hashes)
    (queued : after.queuedHashes = manager.queuedHashes) :
    after.elsewhere streamType = manager.elsewhere streamType := by
  cases streamType <;>
    simp only [elsewhere, queued, others .streamA, others .streamB, others .streamC, ne_eq,
      reduceCtorEq, not_false_eq_true]

theorem storedHashes_withPool (manager : MiningManager) (streamType : StreamType) (pool : Pool) :
    (manager.withPool streamType pool).storedHashes =
      pool.hashes + manager.elsewhere streamType := by
  have others : (manager.withPool streamType pool).elsewhere streamType =
      manager.elsewhere streamType := by
    refine elsewhere_congr (fun other different => ?_) rfl
    simp [withPool, different]
  rw [storedHashes_eq _ streamType, others]
  simp [withPool]

theorem mem_elsewhere (different : other ≠ streamType)
    (held : pooled ∈ (manager.streamPool other).transactions) :
    pooled.hash ∈ manager.elsewhere streamType := by
  have found : pooled.hash ∈ (manager.streamPool other).hashes :=
    mem_coe.mpr (List.mem_map_of_mem held)
  cases streamType <;> cases other <;> simp_all [elsewhere]

variable {manager : MiningManager}

theorem queuedHashes_write {sender : Address} {queue : SenderQueue} :
    { manager with futureTxs := manager.futureTxs.insert sender queue }.queuedHashes =
      queueHashes (fun _ => true) queue +
        { manager with futureTxs := manager.futureTxs.erase sender }.queuedHashes := by
  simp only [queuedHashes, futureHashes, Table.values_write, cons_bind]

theorem queuedHashes_of_lookup (read : manager.futureTxs.lookup sender = some queue) :
      manager.queuedHashes = queueHashes (fun _ => true) queue +
        { manager with futureTxs := manager.futureTxs.erase sender }.queuedHashes := by
  simp only [queuedHashes, futureHashes, Table.values_of_lookup read, cons_bind]

theorem queuedHashes_enqueue (manager : MiningManager) (sender : Address)
    (pooled : PooledTransaction) (free : nonce ∉ (manager.futureTxs.lookup sender).getD ∅) :
    { manager with
        futureTxs := manager.futureTxs.insert sender
          (((manager.futureTxs.lookup sender).getD ∅).insert nonce pooled) }.queuedHashes =
      pooled.hash ::ₘ manager.queuedHashes := by
  have grown : queueHashes (fun _ => true)
      (((manager.futureTxs.lookup sender).getD ∅).insert nonce pooled) =
      pooled.hash ::ₘ queueHashes (fun _ => true) ((manager.futureTxs.lookup sender).getD ∅) := by
    simp [queueHashes, Table.values_insert_of_notMem free]
  rw [queuedHashes_write, grown, cons_add]
  cases read : manager.futureTxs.lookup sender with
  | some queue => rw [Option.getD_some, ← queuedHashes_of_lookup read]
  | none =>
    rw [Table.erase_of_lookup read]
    simp [queueHashes]

theorem queuedHashes_storeQueue (read : manager.futureTxs.lookup sender = some queue) :
    (manager.storeQueue sender queue).queuedHashes = manager.queuedHashes := by
  rw [queuedHashes_of_lookup read]
  unfold storeQueue
  split
  · rename_i nothing
    simp [nothing, queueHashes]
  · exact queuedHashes_write

theorem queuedAt_storeQueue (read : manager.futureTxs.lookup sender = some queue) :
    (manager.storeQueue sender queue).queuedAt = manager.queuedAt := by
  funext other nonce
  unfold storeQueue queuedAt
  by_cases same : other = sender
  · subst same
    split
    · rename_i nothing
      simp [read, nothing]
    · simp [read]
  · split <;> simp [same]

/-- The set records what is held, and beside it `entering`, which is on its way into a pool. -/
structure Records (manager : MiningManager) (entering : Multiset Hash) : Prop where
  recorded : Recorded manager.poolTxHashes (entering + manager.storedHashes)
  counted : manager.Counted

theorem Records.of_same (records : manager.Records entering)
    (record : after.poolTxHashes = manager.poolTxHashes)
    (stored : after.storedHashes = manager.storedHashes) (counted : after.Counted) :
    after.Records entering :=
  ⟨by rw [record, stored]; exact records.recorded, counted⟩

theorem Records.evictLowest (records : manager.Records entering) (streamType : StreamType)
    (newTxFee : U128) :
    (manager.evictLowestFeeTxIfHigher streamType newTxFee).2.Records entering := by
  unfold evictLowestFeeTxIfHigher
  split
  · exact records
  · rename_i index evicted found
    split
    · have read := Pool.getElem?_of_lowestFee found
      have recorded := records.recorded
      rw [storedHashes_eq _ streamType, Pool.hashes_swapRemove read, cons_add, add_cons,
        ← storedHashes_withPool] at recorded
      have removed := (records.counted.streams streamType).swapRemove read
      exact ⟨recorded.erase, (records.counted.withPool streamType removed).of_same rfl rfl⟩
    · exact records

/-- What was on its way has arrived. -/
theorem Records.addToPoolInner (records : manager.Records (pooled.hash ::ₘ entering)) :
    (manager.addToPoolInner pooled).Records entering := by
  have roomy :
      (manager.makeRoom manager.targetStream pooled.tx.fee).Records (pooled.hash ::ₘ entering) := by
    unfold makeRoom
    split
    · exact records.evictLowest _ _
    · exact records
  have arrived := storedHashes_withPool (manager.makeRoom manager.targetStream pooled.tx.fee)
    manager.targetStream
    (((manager.makeRoom manager.targetStream pooled.tx.fee).streamPool manager.targetStream).push
      pooled)
  rw [Pool.hashes_push, cons_add, ← storedHashes_eq] at arrived
  obtain ⟨recorded, counted⟩ := roomy
  rw [cons_add, ← add_cons, ← arrived] at recorded
  exact ⟨recorded,
    (counted.withPool manager.targetStream ((counted.streams _).push pooled)).of_same rfl rfl⟩

theorem futureTxs_addToPoolInner :
    (manager.addToPoolInner pooled).futureTxs = manager.futureTxs := by
  change (manager.makeRoom manager.targetStream pooled.tx.fee).futureTxs = manager.futureTxs
  unfold makeRoom evictLowestFeeTxIfHigher
  repeat' split
  all_goals rfl

/-- Nothing is released if nothing waits for the nonce. -/
theorem releaseQueue_of_idle (act : PooledTransaction → MiningManager → MiningManager)
    (idle : manager.queuedAt sender nonce = none) : manager.releaseQueue act sender nonce =
      manager ∨ ∃ queue, manager.futureTxs.lookup sender = some queue ∧
        manager.releaseQueue act sender nonce = manager.storeQueue sender queue := by
  unfold MiningManager.releaseQueue
  split
  · exact .inl rfl
  · rename_i queue read
    have nothing : ∀ fuel, releaseLoop act fuel nonce queue manager = (queue, manager) := by
      rw [queuedAt, read, Option.bind_some] at idle
      intro fuel
      cases fuel with
      | zero => rfl
      | succ fuel => rw [releaseLoop, idle]
    rw [nothing]
    exact .inr ⟨queue, read, rfl⟩

theorem Records.releaseQueue (records : manager.Records entering)
    (idle : manager.queuedAt sender nonce = none) :
    (manager.releaseQueue act sender nonce).Records entering ∧
      (manager.releaseQueue act sender nonce).queuedAt = manager.queuedAt := by
  rcases releaseQueue_of_idle act idle with same | ⟨queue, read, stored⟩
  · rw [same]
    exact ⟨records, rfl⟩
  · rw [stored]
    refine ⟨records.of_same rfl ?_ (records.counted.of_same rfl rfl), queuedAt_storeQueue read⟩
    change _ + (manager.storeQueue sender queue).queuedHashes = _
    rw [queuedHashes_storeQueue read]
    rfl

theorem Records.addTransaction (records : manager.Records 0) (now : Instant)
    (idle : tx.nonce = view.getNonce tx.from → manager.queuedAt tx.from tx.nonce = none) :
    (manager.addTransaction view now tx).2.Records 0 := by
  have counted : ∀ record futureTxs, { manager with poolTxHashes := record, futureTxs }.Counted :=
    fun _ _ => records.counted.of_same rfl rfl
  unfold MiningManager.addTransaction
  split
  · exact records
  · rename_i fresh
    have entered :
        { manager with poolTxHashes := insert tx.hash manager.poolTxHashes }.Records {tx.hash} := by
      have recorded := records.recorded
      rw [zero_add] at recorded
      exact ⟨recorded.cons fresh, counted _ _⟩
    have refused : ({ manager with poolTxHashes := insert tx.hash manager.poolTxHashes }.forget
      tx.hash).Records 0 :=
      records.of_same (Finset.erase_insert fresh) rfl (counted _ _)
    dsimp only
    split
    · exact refused
    · split
      · rename_i next
        have admitted :
            ({ manager with poolTxHashes := insert tx.hash manager.poolTxHashes }.addToPoolInner
            { tx := tx, submittedAt := now }).Records 0 := Records.addToPoolInner entered
        refine (admitted.releaseQueue ?_).1
        rw [queuedAt, futureTxs_addToPoolInner, ← next]
        exact idle next
      · split
        · split
          · exact refused
          · split
            · exact refused
            · rename_i free
              have grown := queuedHashes_enqueue
                { manager with poolTxHashes := insert tx.hash manager.poolTxHashes }
                tx.from { tx := tx, submittedAt := now } free
              refine ⟨?_, counted _ _⟩
              rw [zero_add, storedHashes, grown, add_cons]
              exact entered.recorded
        · split <;> exact refused

theorem storedHashes_evictExpiredFrom (manager : MiningManager) (streamType : StreamType)
    (now : Instant) : manager.storedHashes =
      ((expiredIn (manager.streamPool streamType) now).map PooledTransaction.hash : List Hash) +
        (manager.evictExpiredFrom streamType now).storedHashes := by
  have parted := Pool.hashes_retain (manager.streamPool streamType) fun pooled =>
    pooled.ageSecs now < txTtlSecs
  have expired : ((manager.streamPool streamType).transactions.filter fun pooled =>
      !decide (pooled.ageSecs now < txTtlSecs)) =
        expiredIn (manager.streamPool streamType) now := by
    refine List.filter_congr fun pooled _ => ?_
    rw [← decide_not, decide_eq_decide, Nat.not_lt]
  have left :=
    storedHashes_withPool manager streamType (unexpiredIn (manager.streamPool streamType) now)
  rw [storedHashes_eq manager streamType, parted, expired, add_assoc, ← unexpiredIn, ← left]
  rfl

theorem Records.evictExpiredFrom (records : manager.Records 0) (streamType : StreamType)
    (now : Instant) : (manager.evictExpiredFrom streamType now).Records 0 := by
  obtain ⟨recorded, counted⟩ := records
  rw [zero_add, storedHashes_evictExpiredFrom manager streamType now] at recorded
  have left := recorded.sdiff
  refine ⟨?_, (counted.withPool streamType ((counted.streams streamType).retain _)).of_same rfl rfl⟩
  rw [zero_add]
  exact left

theorem Records.forgetAll (records : manager.Records 0)
    (absent : ∀ hash ∈ hashes, hash ∉ manager.storedHashes) :
    (manager.forgetAll hashes).Records 0 := by
  refine records.of_same ?_ rfl (records.counted.of_same rfl rfl)
  have recorded := records.recorded
  rw [zero_add] at recorded
  refine Finset.sdiff_eq_self_of_disjoint (Finset.disjoint_right.mpr fun hash listed held => ?_)
  exact absent hash (List.mem_toFinset.mp listed) (recorded.mem_iff.mp held)

theorem queueHashes_retain (queue : SenderQueue) (now : Instant) :
    queueHashes (fun _ => true) queue = queueHashes (isStale now) queue +
      queueHashes (fun _ => true) (queue.retain fun _ pooled => !isStale now pooled) := by
  have others : queue.values.filter (fun pooled => (!isStale now pooled) = true) =
      queue.values.filter fun pooled => ¬isStale now pooled = true :=
    filter_congr fun pooled _ => by simp
  simp only [queueHashes, Table.values_retain, filter_true]
  rw [others, ← map_add, filter_add_not]

theorem queuedHashes_cleanup (manager : MiningManager) (now : Instant) : manager.queuedHashes =
      futureHashes (isStale now) manager.futureTxs +
        (manager.cleanupStaleFutureTxs now).queuedHashes := by
  have kept : (manager.cleanupStaleFutureTxs now).queuedHashes =
      manager.futureTxs.values.bind fun queue =>
      queueHashes (fun _ => true) (queue.retain fun _ pooled => !isStale now pooled) := by
    refine (Table.bind_values_retain ?_).trans ?_
    · intro queue _ dropped
      rw [show queue = ∅ by simpa using dropped]
      rfl
    · rw [Table.values_mapValues, bind_map]
  rw [kept, futureHashes, ← bind_add]
  exact bind_congr fun queue _ => queueHashes_retain queue now

theorem Records.cleanupStaleFutureTxs (records : manager.Records 0) (now : Instant) :
    (manager.cleanupStaleFutureTxs now).Records 0 := by
  obtain ⟨recorded, counted⟩ := records
  rw [zero_add, storedHashes, queuedHashes_cleanup manager now, add_left_comm] at recorded
  refine ⟨?_, counted.of_same rfl rfl⟩
  rw [zero_add]
  exact recorded.sdiff

/-- Where no copy of what expires in the legacy pool is held elsewhere, expiry keeps the record. -/
theorem Records.evictExpiredTransactions (records : manager.Records 0)
    (single : ∀ pooled ∈ expiredIn manager.txPool now, pooled.hash ∉ manager.storedHashes) :
    (manager.evictExpiredTransactions now).Records 0 := by
  have streams :=
    ((records.evictExpiredFrom .streamA now).evictExpiredFrom .streamB now).evictExpiredFrom
    .streamC now
  have fewer : ∀ (before : MiningManager) streamType,
      (before.evictExpiredFrom streamType now).storedHashes ⊆ before.storedHashes := by
    intro before streamType hash held
    rw [storedHashes_evictExpiredFrom before streamType now]
    exact mem_add.mpr (.inr held)
  have legacy :
      (((manager.evictExpiredFrom .streamA now).evictExpiredFrom .streamB now).evictExpiredFrom
        .streamC now).evictExpiredFromLegacy now |>.Records 0 := by
    have retained := streams.counted.legacy.retain fun pooled => pooled.ageSecs now < txTtlSecs
    refine Records.forgetAll (streams.of_same rfl rfl ⟨streams.counted.streams, retained⟩)
      fun hash listed held => ?_
    obtain ⟨pooled, expired, rfl⟩ := List.mem_map.mp listed
    exact single pooled expired (fewer _ _ (fewer _ _ (fewer _ _ held)))
  exact legacy.cleanupStaleFutureTxs now

/-- What the draining loop keeps, with `others` held outside its pool. -/
structure DrainRecords (others : Multiset Hash) (drain : Drain) : Prop where
  recorded : Recorded drain.poolTxHashes (drain.pool.hashes + others)
  counted : drain.pool.Counted
  forgotten : ∀ tx ∈ drain.txs, tx.hash ∉ drain.poolTxHashes

theorem DrainRecords.take {others : Multiset Hash} {now : Instant} {drain : Drain}
    {rest : List PooledTransaction} (shape : drain.pool.transactions = pooled :: rest)
    (records : DrainRecords others drain) : DrainRecords others (drain.take now pooled) := by
  have first : drain.pool.transactions[0]? = some pooled := by rw [shape]; rfl
  have popped : Recorded (drain.poolTxHashes.erase pooled.hash)
      ((drain.pool.swapRemove 0).hashes + others) := by
    have recorded := records.recorded
    rw [Pool.hashes_swapRemove first, cons_add] at recorded
    exact recorded.erase
  have counted := records.counted.swapRemove first
  have forgotten : ∀ tx ∈ drain.txs, tx.hash ∉ drain.poolTxHashes.erase pooled.hash :=
    fun tx taken kept => records.forgotten tx taken (Finset.mem_of_mem_erase kept)
  unfold Drain.take
  split
  · exact ⟨popped, counted, forgotten⟩
  · split
    · exact ⟨popped, counted, forgotten⟩
    · refine ⟨popped, counted, fun tx taken => ?_⟩
      rcases List.mem_append.mp taken with earlier | last
      · exact forgotten tx earlier
      · rw [List.mem_singleton.mp last]
        exact Finset.notMem_erase _ _

theorem Records.drain (records : manager.Records 0) (loop : StreamLoop) (start : RoundStart) :
    (manager.drain loop start).2.Records 0 := by
  have sorted : Pool.hashes { manager.streamPool loop.streamType with
      transactions := start.feeSort.sort (manager.streamPool loop.streamType).transactions } =
        (manager.streamPool loop.streamType).hashes :=
    coe_eq_coe.mpr ((start.feeSort.perm _).map PooledTransaction.hash)
  have kept : DrainRecords (manager.elsewhere loop.streamType) (manager.drained loop start) := by
    refine Drain.loop_keeps (fun drain pooled rest shape kept => DrainRecords.take shape kept) _ _ _
      ⟨?_, (records.counted.streams loop.streamType).trans
        (start.feeSort.perm _).length_eq.symm, by simp⟩
    rw [sorted, ← storedHashes_eq]
    simpa using records.recorded
  have others : (manager.drain loop start).2.elsewhere loop.streamType =
      manager.elsewhere loop.streamType := by
    refine elsewhere_congr (fun other different => ?_) rfl
    have whole : (manager.streamPool other).transactions.filter (fun pooled =>
        pooled.hash ∉ ((manager.drained loop start).txs.map Transaction.hash).toFinset) =
          (manager.streamPool other).transactions := by
      refine List.filter_eq_self.mpr fun pooled held => decide_eq_true fun listed => ?_
      obtain ⟨tx, taken, same⟩ := List.mem_map.mp (List.mem_toFinset.mp listed)
      refine kept.forgotten tx taken (kept.recorded.mem_iff.mpr (mem_add.mpr (.inr ?_)))
      rw [same]
      exact mem_elsewhere different held
    simp only [MiningManager.drain, if_neg different, Pool.hashes, Pool.retain]
    rw [whole]
  refine ⟨?_, fun other => ?_, records.counted.legacy⟩
  · rw [storedHashes_eq _ loop.streamType, others]
    simpa [MiningManager.drain] using kept.recorded
  · by_cases same : other = loop.streamType
    · simpa [MiningManager.drain, same] using kept.counted
    · simpa [MiningManager.drain, same] using (records.counted.streams other).retain _

theorem Records.commit (records : manager.Records 0) (iteration : SetIteration Address)
    (settled : ∀ tx ∈ txs, tx.hash ∉ manager.storedHashes ∧
      manager.queuedAt tx.from (view.getNonce tx.from) = none) :
    (manager.commit view iteration txs).Records 0 := by
  have cleared : ((manager.unmark txs).forgetAll (txs.map Transaction.hash)).Records 0 := by
    refine Records.forgetAll (records.of_same rfl rfl (records.counted.of_same rfl rfl))
      fun hash listed => ?_
    obtain ⟨tx, member, rfl⟩ := List.mem_map.mp listed
    exact (settled tx member).1
  have idle : ∀ sender ∈ iteration.toList (txs.map Transaction.from).toFinset,
      ((manager.unmark txs).forgetAll (txs.map Transaction.hash)).queuedAt sender
        (view.getNonce sender) = none := by
    intro sender listed
    obtain ⟨tx, member, rfl⟩ :=
      List.mem_map.mp (List.mem_toFinset.mp ((iteration.mem_toList _ _).mp listed))
    exact (settled tx member).2
  unfold MiningManager.commit
  -- No sender has anything to release, so the turns of the loop leave the queues as they are.
  generalize (manager.unmark txs).forgetAll (txs.map Transaction.hash) = current at cleared idle
  generalize iteration.toList (txs.map Transaction.from).toFinset = senders at idle
  induction senders generalizing current with
  | nil => exact cleared
  | cons sender rest ih =>
    obtain ⟨released, queued⟩ :=
      @cleared.releaseQueue _ _ _ _ promoteToLegacy (idle sender List.mem_cons_self)
    refine ih _ released fun other later => ?_
    rw [queued]
    exact idle other (List.mem_cons_of_mem sender later)

theorem Records.consistent (records : manager.Records 0) : manager.Consistent := by
  obtain ⟨recorded, counted⟩ := records
  rw [zero_add] at recorded
  exact ⟨fun _ => recorded.mem_iff, recorded.nodup, counted⟩

theorem Consistent.count_le_one (consistent : manager.Consistent) (hash : Hash) :
    manager.storedHashes.count hash ≤ 1 :=
  nodup_iff_count_le_one.mp consistent.once hash

end MiningManager

namespace MiningState

/-- What a step must not do for the record to be kept: promote a future transaction, put
transactions back into the pool of a stream, commit a transaction that was admitted again, or let a
transaction expire in the legacy pool of which another copy is held. -/
def KeepsRecord (state : MiningState) : MiningStep → Prop
  | .addTransaction view _ tx => tx.nonce = view.getNonce tx.from →
      state.manager.queuedAt tx.from tx.nonce = none
  | .evictExpiredTransactions now =>
    ∀ pooled ∈ MiningManager.expiredIn state.manager.txPool now,
      pooled.hash ∉ state.manager.storedHashes
  | .cleanupStaleFutureTxs _ => True
  | .startRound _ _ => True
  | .endRound streamType finish =>
    finish.parentHashes ≠ [] → finish.parentsValid = false ∨
        (streamType.loop.provesWork = true ∧ finish.found = false) →
      ∀ txs ∈ state.hands streamType, txs = []
  | .processBlock committed view _ _ =>
    committed = true → ∀ block ∈ state.channel.head?, ∀ tx ∈ block,
      tx.hash ∉ state.manager.storedHashes ∧
        state.manager.queuedAt tx.from (view.getNonce tx.from) = none

instance (state : MiningState) : (step : MiningStep) → Decidable (state.KeepsRecord step)
  | .addTransaction .. => inferInstanceAs (Decidable (_ → _))
  | .evictExpiredTransactions _ => inferInstanceAs (Decidable (∀ _ ∈ _, _))
  | .cleanupStaleFutureTxs _ | .startRound _ _ => inferInstanceAs (Decidable True)
  | .endRound .. => inferInstanceAs (Decidable (_ → _ → ∀ _ ∈ _, _))
  | .processBlock .. => inferInstanceAs (Decidable (_ → ∀ _ ∈ _, ∀ _ ∈ _, _))

theorem records_endRound {state : MiningState}
    (records : state.manager.Records 0) (keeps : state.KeepsRecord (.endRound streamType finish)) :
    (state.endRound streamType finish).manager.Records 0 := by
  unfold endRound
  split
  · exact records
  · rename_i txs holding
    split
    · exact records
    · rename_i back returned
      have nothing : back = [] := by
        unfold StreamLoop.settle at returned
        split at returned
        · cases returned
        · rename_i parents
          split at returned
          · rename_i invalid
            cases returned
            exact keeps parents (.inl invalid) txs holding
          · split at returned
            · rename_i failed
              cases returned
              rw [keeps parents (.inr failed) txs holding]
              rfl
            · split at returned <;> cases returned
      subst nothing
      refine records.of_same rfl ?_
        ((records.counted.withPool streamType (records.counted.streams streamType)).of_same rfl rfl)
      rw [MiningManager.storedHashes_eq state.manager streamType]
      exact MiningManager.storedHashes_withPool state.manager streamType _
    · exact records

theorem records_apply (records : state.manager.Records 0)
    (keeps : state.KeepsRecord step) : (apply step state).manager.Records 0 := by
  cases step with
  | addTransaction view now tx => exact records.addTransaction now keeps
  | evictExpiredTransactions now => exact records.evictExpiredTransactions keeps
  | cleanupStaleFutureTxs now => exact records.cleanupStaleFutureTxs now
  | startRound streamType start =>
    unfold apply startRound
    dsimp only
    split
    · exact records
    · exact records.drain _ start
  | endRound streamType finish => exact records_endRound records keeps
  | processBlock committed view iteration now =>
    unfold apply processBlock
    dsimp only
    split
    · exact records
    · rename_i block rest waiting
      split
      · rename_i done
        exact records.commit iteration (keeps done block (by rw [waiting]; rfl))
      · exact records.of_same rfl rfl
          ⟨records.counted.streams, records.counted.legacy.pushAll now _⟩

/-- In every run whose steps keep the record, the set, the pools, the queues and the counters
agree. -/
theorem consistent_of_run (singleStreamMode : Bool) (steps : List MiningStep)
    (keeps : ∀ entry ∈ Run.visited apply (new singleStreamMode) steps,
      entry.1.KeepsRecord entry.2) :
    ∀ state ∈ Run.states apply (new singleStreamMode) steps, state.manager.Consistent := by
  have initial : (new singleStreamMode).manager.Records 0 := ⟨Recorded.empty, fun _ => rfl, rfl⟩
  intro state reached
  exact (@Run.invariant_states _ _ apply (new singleStreamMode) steps
    (fun state => state.manager.Records 0) KeepsRecord
    (fun _ _ kept met => records_apply kept met) initial keeps state reached).consistent

def senderOrder : SetIteration Address :=
  .ascendingBy BitVec.toNat BitVec.toNat_injective

/-- The first transaction is mined and committed while the third one waits in its queue, where it
goes stale. -/
def minedWhileQueued : List MiningStep :=
  [.addTransaction (viewAt 0) 0 (pooledTransfer 10 0),
    .addTransaction (viewAt 0) 0 (pooledTransfer 30 2),
    .startRound .streamA (.inOrder 1), .endRound .streamA .mined,
    .processBlock true (viewAt 1) senderOrder 2,
    .evictExpiredTransactions (300 * Instant.second)]

theorem minedWhileQueued_consistent :
    (∀ entry ∈ Run.visited apply (new false) minedWhileQueued, entry.1.KeepsRecord entry.2) ∧
      ∀ state ∈ Run.states apply (new false) minedWhileQueued, state.manager.Consistent := by
  have keeps : ∀ entry ∈ Run.visited apply (new false) minedWhileQueued,
      entry.1.KeepsRecord entry.2 := by
    decide +kernel
  exact ⟨keeps, consistent_of_run false minedWhileQueued keeps⟩

/-- A transaction waits for its nonce, another one with that nonce arrives when the chain has
reached it, and the first one is promoted and then admitted again. -/
def promotedThenResubmitted : List MiningStep :=
  [.addTransaction (viewAt 0) 0 (pooledTransfer 20 1), .addTransaction (viewAt 1) 1
    (pooledTransfer 21 1), .addTransaction (viewAt 1) 2 (pooledTransfer 20 1)]

/-- The promoted transaction is in a pool without a record, and in a second pool after that. -/
theorem promoted_admittedTwice :
    let promoted := (Run.run apply (new false) (promotedThenResubmitted.take 2)).manager
    let resubmitted := (Run.run apply (new false) promotedThenResubmitted).manager
    ((pooledTransfer 20 1).hash ∈ promoted.storedHashes ∧
      (pooledTransfer 20 1).hash ∉ promoted.poolTxHashes) ∧
      resubmitted.storedHashes.count (pooledTransfer 20 1).hash = 2 ∧
      ¬∀ singleStreamMode steps, ∀ state ∈ Run.states apply (new singleStreamMode) steps,
        state.manager.Consistent := by
  have twice : (Run.run apply (new false) promotedThenResubmitted).manager.storedHashes.count
      (pooledTransfer 20 1).hash = 2 := by decide +kernel
  refine ⟨by decide +kernel, twice, fun always => ?_⟩
  have single := (always false promotedThenResubmitted _ Run.run_mem_states).count_le_one
    (pooledTransfer 20 1).hash
  rw [twice] at single
  exact absurd single (by decide)

end MiningState

end IronDag
