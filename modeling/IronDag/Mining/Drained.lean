import IronDag.Mining.Streams

namespace IronDag

open MiningManager List Function

namespace Settlement

def kept : Settlement → List Transaction
  | .dropped => []
  | .returned txs => txs
  | .submitted txs => txs

end Settlement

namespace StreamLoop

variable {loop : StreamLoop}

/-- The round has parents for its block, and these are refused, or the block fits and is either not
mined or delivered. -/
def Completes (loop : StreamLoop) (finish : RoundEnd) (txs : List Transaction) : Prop :=
  finish.parentHashes ≠ [] ∧
    (finish.parentsValid = false ∨
      (txs.length ≤ 1 ∨ fitsBlock finish.serializedSize txs = true) ∧
        ((loop.provesWork = true ∧ finish.found = false) ∨ finish.delivered = true))

instance (loop : StreamLoop) (finish : RoundEnd) (txs : List Transaction) :
    Decidable (loop.Completes finish txs) :=
  inferInstanceAs (Decidable (_ ∧ _))

/-- A round keeps all its transactions exactly if it has none or completes. -/
theorem kept_settle_iff :
    (loop.settle finish txs).kept = txs ↔ txs = [] ∨ loop.Completes finish txs := by
  unfold settle Completes
  by_cases parents : finish.parentHashes = []
  · simp [Settlement.kept, parents]
  · rw [if_neg parents]
    cases valid : finish.parentsValid with
    | false => simp [Settlement.kept, parents]
    | true =>
      have trimmed := @trimBlockTransactions_eq_self_iff finish.serializedSize txs
      have shorter : txs = [] → txs.length ≤ 1 := fun nothing => by simp [nothing]
      by_cases failed : loop.provesWork = true ∧ finish.found = false
      · simp only [if_pos failed]
        tauto
      · by_cases delivered : finish.delivered = true
        · simp only [if_neg failed, if_pos delivered]
          tauto
        · simp only [if_neg failed, if_neg delivered]
          tauto

end StreamLoop

namespace MiningState

/-- A stream other than `streamType` has drained the transaction, or it is in a submitted block. -/
def HeldByOthers (state : MiningState) (streamType : StreamType) (hash : Hash) : Prop :=
  (∃ other, other ≠ streamType ∧ ∃ txs ∈ state.hands other, hash ∈ txs.map Transaction.hash) ∨
    ∃ block ∈ state.channel, hash ∈ block.map Transaction.hash

/-- Every transaction in the pool of the stream is still there after the draining, has expired, is
in the hands of the stream, or is held by another one. -/
def DrainAccounted (state : MiningState) (streamType : StreamType) (start : RoundStart) : Prop :=
  ∀ pooled ∈ (state.manager.streamPool streamType).transactions,
    pooled ∈ ((state.startRound streamType start).manager.streamPool streamType).transactions ∨
      pooled.isExpired start.now = true ∨
      (∃ txs ∈ (state.startRound streamType start).hands streamType,
        pooled.hash ∈ txs.map Transaction.hash) ∨
      state.HeldByOthers streamType pooled.hash

/-- Every transaction in the hands of the stream is in the block it submits, or back in its pool and
not marked as in flight. -/
def EndAccounted (state : MiningState) (streamType : StreamType) (finish : RoundEnd) : Prop :=
  ∀ txs ∈ state.hands streamType, ∀ tx ∈ txs,
    (∃ block, (state.endRound streamType finish).channel = state.channel ++ [block] ∧ tx ∈ block) ∨
      ((∃ pooled ∈ ((state.endRound streamType finish).manager.streamPool streamType).transactions,
        pooled.tx = tx) ∧ tx.hash ∉ (state.endRound streamType finish).manager.inFlightTxs)

/-- The two steps of a round account for all transactions. -/
def Accounted (state : MiningState) : MiningStep → Prop
  | .startRound streamType start => state.hands streamType = none →
      state.DrainAccounted streamType start
  | .endRound streamType finish => state.EndAccounted streamType finish
  | _ => True

/-- A round that holds transactions completes. -/
def KeepsHands (state : MiningState) : MiningStep → Prop
  | .endRound streamType finish =>
    ∀ txs ∈ state.hands streamType, txs = [] ∨ streamType.loop.Completes finish txs
  | _ => True

instance (state : MiningState) : (step : MiningStep) → Decidable (state.KeepsHands step)
  | .endRound .. => inferInstanceAs (Decidable (∀ _ ∈ _, _))
  | .addTransaction _ _ _ | .evictExpiredTransactions _ | .cleanupStaleFutureTxs _ | .startRound _ _
  | .processBlock _ _ _ _ => inferInstanceAs (Decidable True)

/-- Every mark stands for a transaction that a stream holds or that is in a submitted block. -/
def Marked (state : MiningState) : Prop :=
  ∀ hash ∈ state.manager.inFlightTxs,
    (∃ streamType, ∃ txs ∈ state.hands streamType, hash ∈ txs.map Transaction.hash) ∨
      ∃ block ∈ state.channel, hash ∈ block.map Transaction.hash

end MiningState

/-- What the draining loop keeps: `initial` is the pool and `marked` the in-flight set before it. -/
structure Drain.Accounts (now : Instant) (initial : List PooledTransaction) (marked : Finset Hash)
    (drain : Drain) : Prop where
  accounted : ∀ pooled ∈ initial, pooled ∈ drain.pool.transactions ∨ pooled.isExpired now = true ∨
    pooled.hash ∈ drain.txs.map Transaction.hash ∨ pooled.hash ∈ marked
  marks : ∀ hash ∈ drain.inFlightTxs, hash ∈ drain.txs.map Transaction.hash ∨ hash ∈ marked

namespace Drain

variable {now : Instant} {initial : List PooledTransaction} {marked : Finset Hash} {drain : Drain}

theorem marks_subset {drain : Drain} : drain.marks ⊆ drain.inFlightTxs := by
  unfold marks
  split
  · exact Finset.empty_subset _
  · exact Finset.Subset.refl _

theorem Accounts.take {pooled : PooledTransaction} {rest : List PooledTransaction}
    (shape : drain.pool.transactions = pooled :: rest)
    (accounts : drain.Accounts now initial marked) :
    (drain.take now pooled).Accounts now initial marked := by
  have first : drain.pool.transactions[0]? = some pooled := by rw [shape]; rfl
  -- Any transaction but the first one is still in the pool.
  have others : ∀ other ∈ initial, other ≠ pooled → other ∈ (drain.pool.swapRemove 0).transactions ∨
      other.isExpired now = true ∨ other.hash ∈ drain.txs.map Transaction.hash ∨
        other.hash ∈ marked := by
    intro other member different
    refine (accounts.accounted other member).imp_left fun held => ?_
    rcases mem_cons.mp ((Vec.swapRemove_perm first).mem_iff.mpr held) with same | left
    · exact absurd same different
    · exact left
  unfold Drain.take
  by_cases expired : pooled.isExpired now = true
  · rw [if_pos expired]
    refine ⟨fun other member => ?_, accounts.marks⟩
    by_cases same : other = pooled
    · exact .inr (.inl (same ▸ expired))
    · exact others other member same
  · rw [if_neg expired]
    by_cases skipped : pooled.hash ∈ drain.marks
    · rw [if_pos skipped]
      refine ⟨fun other member => ?_,
        fun hash kept => accounts.marks hash (drain.marks_subset kept)⟩
      by_cases same : other = pooled
      · subst same
        exact .inr (.inr (accounts.marks other.hash (drain.marks_subset skipped)))
      · exact others other member same
    · rw [if_neg skipped]
      refine ⟨fun other member => ?_, fun hash kept => ?_⟩
      · simp only [map_append, mem_append]
        by_cases same : other = pooled
        · subst same
          exact .inr (.inr (.inl (.inr (mem_singleton_self _))))
        · rcases others other member same with held | old | taken | mark
          · exact .inl held
          · exact .inr (.inl old)
          · exact .inr (.inr (.inl (.inl taken)))
          · exact .inr (.inr (.inr mark))
      · simp only [map_append, mem_append]
        rcases Finset.mem_insert.mp kept with rfl | earlier
        · exact .inl (.inr (mem_singleton_self _))
        · exact (accounts.marks hash (drain.marks_subset earlier)).imp_left .inl

end Drain

namespace MiningManager

variable {manager : MiningManager} {loop : StreamLoop}

theorem accounts_drained : (manager.drained loop start).Accounts start.now
    (manager.streamPool loop.streamType).transactions manager.inFlightTxs := by
  refine Drain.loop_keeps (fun drain pooled rest shape kept => kept.take shape) _ _ _ ⟨?_, ?_⟩
  · intro pooled member
    exact .inl ((start.feeSort.perm _).mem_iff.mpr member)
  · intro hash mark
    exact .inr mark

/-- Ordering does not change which hashes are in the hands of the stream. -/
theorem mem_hashes_drain {hash : Hash} : hash ∈ (manager.drain loop start).1.map Transaction.hash ↔
      hash ∈ (manager.drained loop start).txs.map Transaction.hash :=
  (orderTransactions_perm.map Transaction.hash).mem_iff

theorem inFlightTxs_addToPoolInner {manager : MiningManager} :
    (manager.addToPoolInner pooled).inFlightTxs = manager.inFlightTxs := by
  change (manager.makeRoom manager.targetStream pooled.tx.fee).inFlightTxs = manager.inFlightTxs
  unfold makeRoom evictLowestFeeTxIfHigher
  repeat' split
  all_goals rfl

theorem inFlightTxs_releaseQueue {act : PooledTransaction → MiningManager → MiningManager}
    (same : ∀ pooled manager, (act pooled manager).inFlightTxs = manager.inFlightTxs)
    (manager : MiningManager)
    (sender : Address) (nonce : U64) :
    (manager.releaseQueue act sender nonce).inFlightTxs = manager.inFlightTxs := by
  unfold releaseQueue
  split
  · rfl
  · exact @releaseLoop_keeps (fun after => after.inFlightTxs = manager.inFlightTxs) act
      (fun pooled before kept => (same pooled before).trans kept) _ _ _ manager rfl

theorem inFlightTxs_addTransaction (manager : MiningManager) (view : ChainView) (now : Instant)
    (tx : Transaction) :
    (manager.addTransaction view now tx).2.inFlightTxs = manager.inFlightTxs := by
  unfold addTransaction
  split
  · rfl
  · dsimp only
    split
    · rfl
    · split
      · refine (inFlightTxs_releaseQueue ?_ _ _ _).trans inFlightTxs_addToPoolInner
        intro pooled before
        exact inFlightTxs_addToPoolInner
      · repeat' split
        all_goals rfl

theorem inFlightTxs_commit {manager : MiningManager} {view : ChainView}
    {iteration : SetIteration Address}
    {txs : List Transaction} :
    (manager.commit view iteration txs).inFlightTxs =
      manager.inFlightTxs \ (txs.map Transaction.hash).toFinset := by
  suffices kept : ∀ (senders : List Address) (current : MiningManager),
      (senders.foldl
        (fun manager sender => manager.releaseQueue promoteToLegacy sender (view.getNonce sender))
        current).inFlightTxs = current.inFlightTxs from kept _ _
  intro senders
  induction senders with
  | nil => exact fun current => rfl
  | cons sender rest ih =>
    intro current
    exact (ih _).trans (@inFlightTxs_releaseQueue promoteToLegacy (fun _ _ => rfl) current sender _)

end MiningManager

namespace MiningState

variable {state : MiningState}

theorem startRound_of_idle (idle : state.hands streamType = none) :
    state.startRound streamType start =
      { state with
          manager := (state.manager.drain streamType.loop start).2
          hands := update state.hands streamType
            (some (state.manager.drain streamType.loop start).1) } := by
  unfold startRound
  rw [idle]

theorem Marked.drainAccounted (marked : state.Marked) (idle : state.hands streamType = none) :
    state.DrainAccounted streamType start := by
  intro pooled member
  have accounts := @accounts_drained state.manager streamType.loop start
  rw [StreamType.loop_streamType] at accounts
  rw [startRound_of_idle idle]
  rcases accounts.accounted pooled member with held | expired | taken | mark
  · left
    simpa [drain] using held
  · exact .inr (.inl expired)
  · refine .inr (.inr (.inl ⟨_, update_self _ _ _, ?_⟩))
    exact mem_hashes_drain.mpr taken
  · refine .inr (.inr (.inr ?_))
    refine (marked pooled.hash mark).imp_left fun ⟨other, txs, holding, listed⟩ =>
      ⟨other, ?_, txs, holding, listed⟩
    rintro rfl
    rw [idle] at holding
    cases holding

theorem Marked.startRound (marked : state.Marked) : (state.startRound streamType start).Marked := by
  cases busy : state.hands streamType with
  | some txs =>
    unfold MiningState.startRound
    rw [busy]
    exact marked
  | none =>
    rw [startRound_of_idle busy]
    intro hash mark
    rcases (@accounts_drained state.manager streamType.loop start).marks hash mark with taken | old
    · refine .inl ⟨streamType, _, update_self _ _ _, ?_⟩
      exact mem_hashes_drain.mpr taken
    · refine (marked hash old).imp_left fun ⟨other, txs, holding, listed⟩ =>
        ⟨other, txs, ?_, listed⟩
      have different : other ≠ streamType := by
        rintro rfl
        rw [busy] at holding
        cases holding
      simpa [different] using holding

/-- The three ways a round that keeps its transactions can end. -/
theorem endRound_cases (holding : state.hands streamType = some txs)
    (whole : (streamType.loop.settle finish txs).kept = txs) :
    (txs = [] ∧ state.endRound streamType finish =
      { state with hands := update state.hands streamType none }) ∨
      state.endRound streamType finish =
        { state with
            hands := update state.hands streamType none
            manager := state.manager.putBack streamType finish.now txs } ∨
      state.endRound streamType finish =
        { state with
            hands := update state.hands streamType none
            channel := state.channel ++ [txs] } := by
  unfold endRound
  rw [holding]
  dsimp only
  cases settled : streamType.loop.settle finish txs with
  | dropped =>
    rw [settled] at whole
    exact .inl ⟨whole.symm, rfl⟩
  | returned back =>
    rw [settled] at whole
    obtain rfl : back = txs := whole
    exact .inr (.inl rfl)
  | submitted block =>
    rw [settled] at whole
    obtain rfl : block = txs := whole
    exact .inr (.inr rfl)

theorem mem_pushAll (listed : tx ∈ txs) :
    ∃ pooled ∈ (pushAll pool now txs).transactions, pooled.tx = tx := by
  have pushed : (pushAll pool now txs).transactions =
      pool.transactions ++ txs.map fun tx => { tx := tx, submittedAt := now } := by
    clear listed
    induction txs generalizing pool with
    | nil => simp [pushAll]
    | cons first rest ih =>
      rw [pushAll, foldl_cons, ← pushAll, ih]
      simp [Pool.push]
  rw [pushed]
  exact ⟨_, mem_append_right _ (mem_map_of_mem listed), rfl⟩

theorem endAccounted_of_keeps (keeps : state.KeepsHands (.endRound streamType finish)) :
    state.EndAccounted streamType finish := by
  intro txs holding tx listed
  rcases endRound_cases holding (StreamLoop.kept_settle_iff.mpr (keeps txs holding)) with
    ⟨rfl, -⟩ | back | submitted
  · cases listed
  · refine .inr ⟨?_, ?_⟩
    · rw [back]
      simpa [putBack, withPool, unmark] using mem_pushAll listed
    · rw [back]
      simp only [putBack, unmark, Finset.mem_sdiff, mem_toFinset, not_and, not_not]
      exact fun _ => mem_map_of_mem listed
  · exact .inl ⟨txs, by rw [submitted], listed⟩

theorem Marked.endRound (marked : state.Marked)
    (keeps : state.KeepsHands (.endRound streamType finish)) :
    (state.endRound streamType finish).Marked := by
  cases holding : state.hands streamType with
  | none =>
    unfold MiningState.endRound
    rw [holding]
    exact marked
  | some txs =>
    -- A mark from before is of this stream or of another holder, which the end leaves alone.
    have sources : ∀ hash ∈ state.manager.inFlightTxs, hash ∈ txs.map Transaction.hash ∨
        (∃ other, ∃ held ∈ update state.hands streamType none other,
          hash ∈ held.map Transaction.hash) ∨
          ∃ block ∈ state.channel, hash ∈ block.map Transaction.hash := by
      intro hash mark
      rcases marked hash mark with ⟨other, held, owner, listed⟩ | waiting
      · by_cases same : other = streamType
        · subst same
          obtain rfl : txs = held := Option.some.inj (holding.symm.trans owner)
          exact .inl listed
        · exact .inr (.inl ⟨other, held, by simpa [same] using owner, listed⟩)
      · exact .inr (.inr waiting)
    rcases endRound_cases holding (StreamLoop.kept_settle_iff.mpr (keeps txs holding)) with
      ⟨rfl, idle⟩ | back | submitted
    · rw [idle]
      intro hash mark
      rcases sources hash mark with own | others
      · cases own
      · exact others
    · rw [back]
      intro hash mark
      obtain ⟨before, unlisted⟩ := Finset.mem_sdiff.mp mark
      rcases sources hash before with own | others
      · exact absurd (mem_toFinset.mpr own) unlisted
      · exact others
    · rw [submitted]
      intro hash mark
      rcases sources hash mark with own | others | ⟨block, waiting, listed⟩
      · exact .inr ⟨txs, mem_append_right _ (mem_singleton_self _), own⟩
      · exact .inl others
      · exact .inr ⟨block, mem_append_left _ waiting, listed⟩

theorem Marked.of_same {after : MiningState} (marked : state.Marked)
    (marks : after.manager.inFlightTxs = state.manager.inFlightTxs)
    (hands : after.hands = state.hands)
    (channel : after.channel = state.channel) : after.Marked := by
  rw [Marked, marks, hands, channel]
  exact marked

theorem Marked.processBlock (marked : state.Marked) (committed : Bool) (view : ChainView)
    (iteration : SetIteration Address) (now : Instant) :
    (state.processBlock committed view iteration now).Marked := by
  unfold MiningState.processBlock
  split
  · exact marked
  · rename_i block rest waiting
    have unmarked : (if committed then state.manager.commit view iteration block
        else state.manager.recover now block).inFlightTxs =
          state.manager.inFlightTxs \ (block.map Transaction.hash).toFinset := by
      split
      · exact inFlightTxs_commit
      · rfl
    intro hash mark
    rw [unmarked, Finset.mem_sdiff, mem_toFinset] at mark
    rcases marked hash mark.1 with held | ⟨other, member, listed⟩
    · exact .inl held
    · rw [waiting] at member
      rcases mem_cons.mp member with rfl | later
      · exact absurd listed mark.2
      · exact .inr ⟨other, later, listed⟩

theorem Marked.apply (marked : state.Marked) (keeps : state.KeepsHands step) :
    (MiningState.apply step state).Marked := by
  cases step with
  | addTransaction view now tx => exact marked.of_same (inFlightTxs_addTransaction _ _ _ _) rfl rfl
  | evictExpiredTransactions now | cleanupStaleFutureTxs now => exact marked.of_same rfl rfl rfl
  | startRound streamType start => exact marked.startRound
  | endRound streamType finish => exact marked.endRound keeps
  | processBlock committed view iteration now =>
    exact marked.processBlock committed view iteration now

/-- In every run in which each round that holds transactions completes, every round accounts for
what it drains. -/
theorem accounted_of_run (singleStreamMode : Bool) (steps : List MiningStep)
    (keeps : ∀ entry ∈ Run.visited apply (new singleStreamMode) steps, entry.1.KeepsHands entry.2) :
    ∀ entry ∈ Run.visited apply (new singleStreamMode) steps, entry.1.Accounted entry.2 := by
  intro entry visited
  have marked : entry.1.Marked := by
    refine @Run.invariant_states _ _ apply (new singleStreamMode) steps Marked KeepsHands
      (fun _ _ kept met => kept.apply met) ?_ keeps entry.1 (Run.mem_states_of_visited visited)
    intro hash mark
    cases mark
  obtain ⟨state, step⟩ := entry
  cases step with
  | startRound streamType start => exact fun idle => marked.drainAccounted idle
  | endRound streamType finish => exact endAccounted_of_keeps (keeps _ visited)
  | addTransaction view now tx | evictExpiredTransactions now | cleanupStaleFutureTxs now => trivial
  | processBlock committed view iteration now => trivial

/-- Two streams drain a transaction each; one submits a block, and the other puts its transaction
back because its parents are refused. -/
def submittedAndPutBack : List MiningStep :=
  [.addTransaction (viewAt 0) 0 (pooledTransfer 10 0),
    .addTransaction (viewAt 1) 0 (pooledTransfer 20 1),
    .startRound .streamA (.inOrder 1), .startRound .streamB (.inOrder 1), .endRound .streamA .mined,
    .endRound .streamB { RoundEnd.mined with parentsValid := false },
    .startRound .streamB (.inOrder 2)]

theorem submittedAndPutBack_accounted :
    (∀ entry ∈ Run.visited apply (new false) submittedAndPutBack, entry.1.KeepsHands entry.2) ∧
      ∀ entry ∈ Run.visited apply (new false) submittedAndPutBack, entry.1.Accounted entry.2 := by
  have keeps : ∀ entry ∈ Run.visited apply (new false) submittedAndPutBack,
      entry.1.KeepsHands entry.2 := by
    decide +kernel
  exact ⟨keeps, accounted_of_run false submittedAndPutBack keeps⟩

/-- The only transaction of a node is in the hands of a stream. -/
def drainedAlone : MiningState :=
  Run.run apply (new true)
    [.addTransaction (viewAt 0) 0 (pooledTransfer 10 0), .startRound .streamA (.inOrder 1)]

def withoutParents : RoundEnd :=
  { RoundEnd.mined with parentHashes := [] }

theorem drainedAlone_lost : ¬drainedAlone.EndAccounted .streamA withoutParents := by
  have holding : drainedAlone.hands .streamA = some [pooledTransfer 10 0] := by decide +kernel
  have nowhere : (drainedAlone.endRound .streamA withoutParents).channel = [] ∧
      ((drainedAlone.endRound .streamA withoutParents).manager.streamPool .streamA).transactions =
        [] := by
    decide +kernel
  intro accounted
  rcases accounted _ holding _ mem_cons_self with ⟨block, submitted, -⟩ | ⟨⟨pooled, back, -⟩, -⟩
  · rw [nowhere.1] at submitted
    simp at submitted
  · cases back

/-- After a round without parents the transaction is in no pool, no hands and no block, and its mark
stays: sent again, it is drained and skipped. -/
theorem drained_without_parents :
    let lost := drainedAlone.endRound .streamA withoutParents
    let again := Run.run apply lost
      [.addTransaction (viewAt 0) 2 (pooledTransfer 10 0), .startRound .streamA (.inOrder 3)]
    ((lost.manager.streamPool .streamA).transactions = [] ∧ lost.manager.txPool.transactions = [] ∧
        lost.hands .streamA = none ∧ lost.channel = [] ∧
          (pooledTransfer 10 0).hash ∈ lost.manager.inFlightTxs) ∧
      ((again.manager.streamPool .streamA).transactions = [] ∧ again.hands .streamA = some []) ∧
      ¬∀ singleStreamMode steps, ∀ entry ∈ Run.visited apply (new singleStreamMode) steps,
        entry.1.Accounted entry.2 := by
  refine ⟨by decide +kernel, by decide +kernel, fun always => drainedAlone_lost ?_⟩
  exact always true _ (drainedAlone, .endRound .streamA withoutParents)
    (@Run.mem_visited_of_split _ _ apply (new true) _ _ [] _ rfl)

end MiningState

end IronDag
