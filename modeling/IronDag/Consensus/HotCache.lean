import IronDag.Consensus.Cache
import IronDag.Lib.Run

/-- One more occurrence at the end moves a value there, so what is listed before it stays in
order. -/
theorem List.Sublist.append_dedup [DecidableEq α] {kept : List α}
    (sublist : kept.Sublist past.dedup)
    (absent : last ∉ kept) : (kept ++ [last]).Sublist (past ++ [last]).dedup := by
  induction past generalizing kept with
  | nil =>
    rw [dedup_nil, sublist_nil] at sublist
    simp [sublist]
  | cons first rest ih =>
    by_cases again : first ∈ rest
    · rw [dedup_cons_of_mem again] at sublist
      rw [cons_append, dedup_cons_of_mem (mem_append_left _ again)]
      exact ih sublist absent
    · rw [dedup_cons_of_notMem again] at sublist
      cases sublist with
      | cons _ sublist =>
        refine (ih sublist absent).trans ?_
        by_cases same : first ∈ rest ++ [last]
        · rw [cons_append, dedup_cons_of_mem same]
        · rw [cons_append, dedup_cons_of_notMem same]
          exact sublist_cons_self _ _
      | @cons_cons before _ _ sublist =>
        obtain ⟨different, absent⟩ := not_or.mp (mem_cons.not.mp absent)
        have fresh : first ∉ rest ++ [last] := by simp [again, Ne.symm different]
        rw [cons_append, cons_append, dedup_cons_of_notMem fresh]
        exact (ih sublist absent).cons_cons first

namespace IronDag

open List Finmap

/-- The calls that change which blocks are cached. -/
inductive CacheCall
  | addBlock (block : Block)
  | pruneBlocksByHash (hashes : List Hash)
  | pruneRedBlocks (currentHeight finalityDepth : U64)

namespace CacheCall

def apply : CacheCall → DagStorage → DagStorage
  | addBlock block, storage => storage.addBlock block
  | pruneBlocksByHash hashes, storage => storage.pruneBlocksByHash hashes
  | pruneRedBlocks currentHeight finalityDepth, storage =>
    storage.pruneRedBlocks currentHeight finalityDepth

/-- The hash that the call newly puts into the cache. -/
def inserted (storage : DagStorage) : CacheCall → List Hash
  | addBlock block => if block.hash ∈ storage.hotBlocks then [] else [block.hash]
  | _ => []

/-- The call as a plain map of blocks sees it: insertions write, prunings do nothing. -/
def record (blocks : Table Hash Block) : CacheCall → Table Hash Block
  | addBlock block => blocks.insert block.hash block
  | _ => blocks

end CacheCall

namespace DagStorage

/-- The hashes put into the cache, one for each insertion of a block that was not cached. -/
def insertions : DagStorage → List CacheCall → List Hash
  | _, [] => []
  | storage, call :: rest => call.inserted storage ++ insertions (call.apply storage) rest

/-- The storage caches part of the map `blocks`; `past` lists the insertions into the cache. -/
structure Faithful (size : ℕ) (past : List Hash) (blocks : Table Hash Block)
    (storage : DagStorage) : Prop where
  capacity : storage.hotCacheSize = size
  queues : storage.Queues
  inOrder : storage.hotBlocksOrder.Sublist past.dedup
  finalized : ∀ hash ∈ past, hash ∉ storage.hotBlocks → hash ∈ storage.finalizedBlocks
  cached : ∀ hash block, storage.hotBlocks.lookup hash = some block →
    blocks.lookup hash = some block
  persisted : ∃ database, storage.database = some database ∧ database.blocks = blocks

theorem finalizedBlocks_foldl_finalize {storage : DagStorage} {dropped : List Hash} :
    (dropped.foldl finalize storage).finalizedBlocks =
      storage.finalizedBlocks ∪ dropped.toFinset := by
  induction dropped generalizing storage with
  | nil => simp
  | cons hash rest ih =>
    rw [foldl_cons, ih, finalize, toFinset_cons, Finset.insert_union, ← Finset.union_insert]

namespace Faithful

variable {storage : DagStorage} (faithful : storage.Faithful size past blocks)

include faithful

theorem getBlock_eq (hash : Hash) : storage.getBlock hash = blocks.lookup hash := by
  obtain ⟨database, present, rfl⟩ := faithful.persisted
  unfold getBlock
  cases cached : storage.hotBlocks.lookup hash with
  | some block => exact (faithful.cached hash block cached).symm
  | none => rw [present]; rfl

theorem drop {dropped order : List Hash} (sublist : order.Sublist storage.hotBlocksOrder)
    (queues : { dropped.foldl finalize storage with hotBlocksOrder := order }.Queues) :
    { dropped.foldl finalize storage with hotBlocksOrder := order }.Faithful size past blocks := by
  have behind := sameBehindCache_foldl_finalize storage dropped
  refine ⟨behind.hotCacheSize.trans faithful.capacity, queues,
    sublist.trans faithful.inOrder, ?_, ?_, ?_⟩
  · intro hash member gone
    rw [finalizedBlocks_foldl_finalize, Finset.mem_union, mem_toFinset]
    rw [← lookup_eq_none, hotBlocks_foldl_finalize] at gone
    by_cases named : hash ∈ dropped
    · exact .inr named
    · rw [if_neg named] at gone
      exact .inl (faithful.finalized hash member (lookup_eq_none.mp gone))
  · intro hash block found
    rw [hotBlocks_foldl_finalize] at found
    split at found
    · cases found
    · exact faithful.cached hash block found
  · rw [behind.database]
    exact faithful.persisted

theorem addBlock (block : Block) :
    (storage.addBlock block).Faithful size (past ++ CacheCall.inserted storage (.addBlock block))
      (blocks.insert block.hash block) := by
  obtain ⟨database, present, rfl⟩ := faithful.persisted
  have same := withoutChildren_persistBlock (storage.cacheBlock block) block
  have queues := faithful.queues.persistBlock block
  rw [addBlock_eq]
  generalize (storage.cacheBlock block).persistBlock block = stored at same queues ⊢
  have hot : stored.hotBlocks = storage.hotBlocks.insert block.hash block :=
    (congrArg DagStorage.hotBlocks same :)
  have order : stored.hotBlocksOrder = (storage.cacheBlock block).hotBlocksOrder :=
    (congrArg DagStorage.hotBlocksOrder same :)
  have marks : stored.finalizedBlocks = storage.finalizedBlocks :=
    (congrArg DagStorage.finalizedBlocks same :)
  have disk : stored.database.map (fun contents => { contents with children := ∅ }) =
      some { database with
        blocks := database.blocks.insert block.hash block
        parents := database.parents.insert block.hash block.header.parentHashes
        children := ∅ } := by
    refine (congrArg DagStorage.database same :).trans ?_
    simp [cacheBlock, present, withoutChildren]
  have kept : stored.Faithful size (past ++ CacheCall.inserted storage (.addBlock block))
      (database.blocks.insert block.hash block) := by
    refine ⟨(congrArg hotCacheSize same :).trans faithful.capacity, queues, ?_, ?_, ?_, ?_⟩
    · rw [order]
      by_cases cached : block.hash ∈ storage.hotBlocks
      · simpa [cacheBlock, CacheCall.inserted, cached] using faithful.inOrder
      · simp only [cacheBlock, CacheCall.inserted, cached, if_false]
        exact faithful.inOrder.append_dedup fun queued =>
          cached ((faithful.queues.queued _).mp queued)
    · intro hash member gone
      rw [hot, mem_insert, not_or] at gone
      rw [marks]
      refine faithful.finalized hash ?_ gone.2
      refine (mem_append.mp member).resolve_right ?_
      simp [CacheCall.inserted, gone.1]
    · intro hash other found
      rw [hot, Table.lookup_write] at found
      rw [Table.lookup_write]
      split
      · rwa [if_pos ‹_›] at found
      · rw [if_neg ‹_›] at found
        exact faithful.cached hash other found
    · obtain ⟨contents, there, equal⟩ := Option.map_eq_some_iff.mp disk
      exact ⟨contents, there, congrArg DagDatabase.blocks equal⟩
  have pruned := queues.pruneHotCache
  rw [queues.pruneHotCache_eq] at pruned ⊢
  exact kept.drop (drop_sublist _ _) pruned

theorem pruneBlocksByHash (dropped : List Hash) :
    (storage.pruneBlocksByHash dropped).Faithful size past blocks := by
  refine faithful.drop ?_ (faithful.queues.pruneBlocksByHash dropped)
  rw [(sameBehindCache_foldl_finalize storage dropped).hotBlocksOrder]
  exact filter_sublist

theorem pruneRedBlocks (currentHeight finalityDepth : U64) :
    (storage.pruneRedBlocks currentHeight finalityDepth).Faithful size past blocks := by
  unfold DagStorage.pruneRedBlocks
  split
  · exact faithful
  · generalize Table.retain (fun hash block => decide (hash ∉ storage.hotBlueSet ∧
      block.header.blockNumber < currentHeight - finalityDepth)) storage.hotBlocks = old
    have lookup (hash : Hash) :
        (Table.retain (fun hash _ => decide (hash ∉ old)) storage.hotBlocks).lookup hash =
        if hash ∈ old then none else storage.hotBlocks.lookup hash := by
      rw [Table.lookup_retain_key]
      by_cases gone : hash ∈ old <;> simp [gone]
    refine ⟨faithful.capacity, ⟨faithful.queues.distinct.filter _, ?_⟩,
      filter_sublist.trans faithful.inOrder, ?_, ?_, faithful.persisted⟩
    · intro hash
      rw [← lookup_isSome]
      rw [lookup, mem_filter, faithful.queues.queued, ← lookup_isSome]
      by_cases gone : hash ∈ old <;> simp [gone]
    · intro hash member absent
      rw [← lookup_eq_none] at absent
      rw [lookup] at absent
      rw [Finset.mem_union]
      by_cases gone : hash ∈ old
      · exact .inr gone
      · rw [if_neg gone, lookup_eq_none] at absent
        exact .inl (faithful.finalized hash member absent)
    · intro hash block found
      rw [lookup] at found
      split at found
      · cases found
      · exact faithful.cached hash block found

theorem apply (call : CacheCall) :
    (call.apply storage).Faithful size (past ++ call.inserted storage) (call.record blocks) := by
  cases call with
  | addBlock block => exact faithful.addBlock block
  | pruneBlocksByHash dropped => exact (append_nil past).symm ▸ faithful.pruneBlocksByHash dropped
  | pruneRedBlocks currentHeight finalityDepth =>
    exact (append_nil past).symm ▸ faithful.pruneRedBlocks currentHeight finalityDepth

theorem run (calls : List CacheCall) :
    (Run.run CacheCall.apply storage calls).Faithful size (past ++ storage.insertions calls)
      (calls.foldl CacheCall.record blocks) := by
  induction calls generalizing storage past blocks with
  | nil => simpa [insertions] using faithful
  | cons call rest ih =>
    rw [insertions, ← append_assoc]
    exact ih (faithful.apply call)

theorem card_addBlock_le (block : Block) : (storage.addBlock block).hotBlocks.keys.card ≤ size := by
  have queues := faithful.queues.persistBlock block
  have capacity : ((storage.cacheBlock block).persistBlock block).hotCacheSize = size :=
    (congrArg hotCacheSize (withoutChildren_persistBlock (storage.cacheBlock block) block) :).trans
      faithful.capacity
  rw [addBlock_eq, queues.pruneHotCache.card_hotBlocks, queues.pruneHotCache_eq, length_drop]
  omega

end Faithful

/-- After any calls on a storage over a database, the queue lists the cached blocks once each, in
the order of their latest insertion; whatever left the cache is marked as finalized; reads see the
last block added under a hash; and an insertion leaves no more blocks than the cache may hold. -/
theorem hotCache_faithful (database : DagDatabase) (size : ℕ) (calls : List CacheCall) :
    let start := { new (some database) with hotCacheSize := size }
    let storage := Run.run CacheCall.apply start calls
    storage.Faithful size (start.insertions calls) (calls.foldl CacheCall.record database.blocks) ∧
      (∀ hash, storage.getBlock hash = (calls.foldl CacheCall.record database.blocks).lookup hash) ∧
      ∀ block, (storage.addBlock block).hotBlocks.keys.card ≤ size := by
  intro start storage
  have fresh : start.Faithful size [] database.blocks := by
    refine ⟨rfl, ⟨nodup_nil, ?_⟩, Sublist.refl _, ?_, ?_, database, rfl, rfl⟩
    · intro hash
      exact iff_of_false not_mem_nil notMem_empty
    · intro hash member
      cases member
    · intro hash block found
      simp [start, new] at found
  have faithful : storage.Faithful size (start.insertions calls)
      (calls.foldl CacheCall.record database.blocks) :=
    fresh.run calls
  exact ⟨faithful, faithful.getBlock_eq, faithful.card_addBlock_le⟩

end DagStorage

end IronDag
