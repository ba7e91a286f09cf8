import IronDag.Consensus.Delivery

namespace IronDag

open Delivery DagStorage Table Finmap Option

variable {hash : Hash}

namespace DagStorage

section Finalize

variable (storage : DagStorage) (dropped : List Hash)

/-- Everything that dropping cached blocks leaves alone. -/
structure SameBehindCache (before after : DagStorage) : Prop where
  database : after.database = before.database
  hotBlocksOrder : after.hotBlocksOrder = before.hotBlocksOrder
  hotCacheSize : after.hotCacheSize = before.hotCacheSize
  confirmationsForCheckpoint : after.confirmationsForCheckpoint = before.confirmationsForCheckpoint
  blocksSinceCheckpoint : after.blocksSinceCheckpoint = before.blocksSinceCheckpoint

theorem sameBehindCache_foldl_finalize :
    SameBehindCache storage (dropped.foldl finalize storage) := by
  induction dropped generalizing storage with
  | nil => exact ⟨rfl, rfl, rfl, rfl, rfl⟩
  | cons hash rest ih =>
    obtain ⟨database, order, cache, interval, counter⟩ := ih (storage.finalize hash)
    exact ⟨database, order, cache, interval, counter⟩

theorem hotBlocks_foldl_finalize : (dropped.foldl finalize storage).hotBlocks.lookup hash =
      if hash ∈ dropped then none else storage.hotBlocks.lookup hash := by
  induction dropped generalizing storage with
  | nil => simp
  | cons first rest ih =>
    rw [List.foldl_cons, ih, finalize, lookup_remove]
    by_cases same : hash = first <;> simp [same]

theorem hotChildren_foldl_finalize : (dropped.foldl finalize storage).hotChildren.lookup hash =
      if hash ∈ dropped then none else storage.hotChildren.lookup hash := by
  induction dropped generalizing storage with
  | nil => simp
  | cons first rest ih =>
    rw [List.foldl_cons, ih, finalize, lookup_remove]
    by_cases same : hash = first <;> simp [same]

/-- Eviction drops the oldest blocks, if the queue lists cached blocks only. -/
theorem evict_eq (distinct : order.Nodup)
    (cached : ∀ hash ∈ order, hash ∈ storage.hotBlocks) (enough : count ≤ order.length) :
    evict count order storage =
      { (order.take count).foldl finalize storage with hotBlocksOrder := order.drop count } := by
  induction count generalizing order storage with
  | zero => cases order <;> rfl
  | succ count ih =>
    cases order with
    | nil => simp at enough
    | cons hash rest =>
      obtain ⟨fresh, restDistinct⟩ := List.nodup_cons.mp distinct
      have restCached : ∀ other ∈ rest, other ∈ (storage.finalize hash).hotBlocks := by
        intro other member
        have different : other ≠ hash := fun same => fresh (same ▸ member)
        have present := cached other (List.mem_cons_of_mem _ member)
        rw [← lookup_isSome] at present ⊢
        rwa [finalize, lookup_remove, if_neg different]
      rw [evict, if_pos (cached hash List.mem_cons_self)]
      exact ih (storage.finalize hash) restDistinct restCached (by simpa using enough)

end Finalize

variable {storage : DagStorage}

@[simp] theorem database_cacheBlock {block : Block} :
    (storage.cacheBlock block).database = storage.database := rfl

def withoutChildren (storage : DagStorage) : DagStorage :=
  { storage with
    hotChildren := ∅
    database := storage.database.map fun database => { database with children := ∅ } }

theorem withoutChildren_persistChild (child : Hash) (storage : DagStorage) (parent : Hash) :
    (persistChild child storage parent).withoutChildren = storage.withoutChildren := by
  unfold persistChild
  cases present : storage.database with
  | none => rfl
  | some database =>
    dsimp only
    split
    · rfl
    · simp [withoutChildren, present]

theorem withoutChildren_linkChild (child : Hash) (storage : DagStorage) (parent : Hash) :
    (GhostDag.linkChild child storage parent).withoutChildren = storage.withoutChildren := by
  unfold GhostDag.linkChild
  split <;> rfl

theorem withoutChildren_foldl
    (same : ∀ storage parent, (step storage parent).withoutChildren = storage.withoutChildren)
    (parents : List Hash) (storage : DagStorage) :
    (parents.foldl step storage).withoutChildren = storage.withoutChildren := by
  induction parents generalizing storage with
  | nil => rfl
  | cons parent rest ih => rw [List.foldl_cons, ih, same]

theorem database_of_withoutChildren {first second : DagStorage}
    (same : first.withoutChildren = second.withoutChildren) :
    first.database = none ↔ second.database = none := by
  have disks : first.withoutChildren.database = second.withoutChildren.database := congrArg _ same
  simp only [withoutChildren] at disks
  rw [← map_eq_none_iff, disks, map_eq_none_iff]

theorem withoutChildren_persistBlock (storage : DagStorage) (block : Block) :
    (storage.persistBlock block).withoutChildren =
      DagStorage.withoutChildren { storage with
        database := storage.database.map fun database =>
          { database with
            blocks := database.blocks.insert block.hash block
            parents := database.parents.insert block.hash block.header.parentHashes } } :=
  withoutChildren_foldl (withoutChildren_persistChild block.hash) _ _

/-- The queue lists the cached blocks, once each. -/
structure Queues (storage : DagStorage) : Prop where
  distinct : storage.hotBlocksOrder.Nodup
  queued : ∀ hash, hash ∈ storage.hotBlocksOrder ↔ hash ∈ storage.hotBlocks

theorem Queues.congr {first second : DagStorage}
    (same : first.withoutChildren = second.withoutChildren)
    (queues : first.Queues) : second.Queues := by
  have sameHot : first.hotBlocks = second.hotBlocks := (congrArg hotBlocks same :)
  have sameOrder : first.hotBlocksOrder = second.hotBlocksOrder := (congrArg hotBlocksOrder same :)
  exact ⟨sameOrder ▸ queues.distinct, sameHot ▸ sameOrder ▸ queues.queued⟩

section Queues

variable {storage : DagStorage} (queues : storage.Queues)

include queues

theorem Queues.card_hotBlocks : storage.hotBlocks.keys.card = storage.hotBlocksOrder.length := by
  have keys : storage.hotBlocks.keys = storage.hotBlocksOrder.toFinset := by
    ext hash
    rw [mem_keys, List.mem_toFinset, queues.queued]
  rw [keys, List.toFinset_card_of_nodup queues.distinct]

theorem Queues.drop {dropped order : List Hash} (sublist : order.Sublist storage.hotBlocksOrder)
    (kept : ∀ hash ∈ storage.hotBlocksOrder, hash ∈ order ↔ hash ∉ dropped) :
    { dropped.foldl finalize storage with hotBlocksOrder := order }.Queues := by
  refine ⟨queues.distinct.sublist sublist, ?_⟩
  intro hash
  rw [← lookup_isSome, hotBlocks_foldl_finalize]
  by_cases gone : hash ∈ dropped
  · simp only [gone, if_true, isSome_none, Bool.false_eq_true, iff_false]
    exact fun queued => (kept hash (sublist.subset queued)).mp queued gone
  · rw [if_neg gone, lookup_isSome, ← queues.queued]
    exact ⟨fun queued => sublist.subset queued, fun queued => (kept hash queued).mpr gone⟩

/-- Eviction down to the configured size drops the head of the queue. -/
theorem Queues.pruneHotCache_eq : storage.pruneHotCache =
      { (storage.hotBlocksOrder.take (storage.hotBlocksOrder.length - storage.hotCacheSize)).foldl
        finalize storage with
        hotBlocksOrder :=
          storage.hotBlocksOrder.drop (storage.hotBlocksOrder.length - storage.hotCacheSize) } := by
  unfold pruneHotCache
  rw [queues.card_hotBlocks]
  dsimp only
  split
  · next none => rw [none]; rfl
  · exact evict_eq storage queues.distinct (fun hash => (queues.queued hash).mp) (Nat.sub_le _ _)

theorem Queues.pruneHotCache : storage.pruneHotCache.Queues := by
  rw [queues.pruneHotCache_eq]
  refine queues.drop (List.drop_sublist _ _) ?_
  intro hash queued
  have distinct := queues.distinct
  rw [← List.take_append_drop
    (storage.hotBlocksOrder.length - storage.hotCacheSize) storage.hotBlocksOrder]
    at distinct queued
  exact ⟨fun kept gone => List.disjoint_of_nodup_append distinct gone kept,
    (List.mem_append.mp queued).resolve_left⟩

theorem Queues.pruneBlocksByHash (dropped : List Hash) :
    (storage.pruneBlocksByHash dropped).Queues := by
  unfold DagStorage.pruneBlocksByHash
  dsimp only
  rw [(sameBehindCache_foldl_finalize storage dropped).hotBlocksOrder]
  refine queues.drop List.filter_sublist ?_
  intro hash queued
  simp [queued]

theorem Queues.cacheBlock (block : Block) : (storage.cacheBlock block).Queues := by
  unfold DagStorage.cacheBlock
  by_cases cached : block.hash ∈ storage.hotBlocks
  · refine ⟨by simpa [cached] using queues.distinct, ?_⟩
    intro hash
    simp only [cached, if_true, mem_insert, queues.queued]
    exact ⟨.inr, fun member => member.elim (fun same => same ▸ cached) id⟩
  · refine ⟨?_, ?_⟩
    · simp only [cached, if_false]
      rw [List.nodup_append_comm]
      exact List.nodup_cons.mpr
        ⟨fun queued => cached ((queues.queued _).mp queued), queues.distinct⟩
    · simp [cached, queues.queued, or_comm]

theorem Queues.persistBlock (block : Block) :
    ((storage.cacheBlock block).persistBlock block).Queues := by
  obtain ⟨distinct, queued⟩ := queues.cacheBlock block
  exact Queues.congr (withoutChildren_persistBlock _ block).symm ⟨distinct, queued⟩

end Queues

/-- Inserting a block caches and persists it, and then evicts what the cache has no room for. -/
theorem addBlock_eq {block : Block} :
    storage.addBlock block = ((storage.cacheBlock block).persistBlock block).pruneHotCache := by
  unfold addBlock DagStorage.pruneHotCache
  dsimp only
  split
  · rfl
  · rw [if_pos (by omega)]

/-- The blocks that a storage holds after the delivery of `blocks`. -/
structure Stores (blocks : List Block) (storage : DagStorage) : Prop where
  cache : storage.hotCacheSize = 1000
  interval : storage.confirmationsForCheckpoint = 100
  hot : ∀ hash block, storage.hotBlocks.lookup hash = some block → find blocks hash = some block
  distinct : storage.hotBlocksOrder.Nodup
  queued : ∀ hash, hash ∈ storage.hotBlocksOrder ↔ hash ∈ storage.hotBlocks
  disk : ∀ database, storage.database = some database →
    ∀ hash, database.blocks.lookup hash = find blocks hash

theorem Stores.new {database : Option DagDatabase}
    (fresh : ∀ contents ∈ database, contents = .empty) : (new database).Stores [] := by
  refine ⟨rfl, rfl, ?_, List.nodup_nil, ?_, ?_⟩
  · intro hash block found
    simp [DagStorage.new] at found
  · intro hash
    exact iff_of_false (List.not_mem_nil) (notMem_empty)
  · intro contents present hash
    rw [fresh contents present]
    simp [DagDatabase.empty, find]

theorem Stores.congr {first second : DagStorage}
    (same : first.withoutChildren = second.withoutChildren) (stores : first.Stores blocks) :
    second.Stores blocks := by
  obtain ⟨cache, interval, hot, distinct, queued, disk⟩ := stores
  have sameHot : first.hotBlocks = second.hotBlocks := (congrArg hotBlocks same :)
  have sameOrder : first.hotBlocksOrder = second.hotBlocksOrder := (congrArg hotBlocksOrder same :)
  refine ⟨(congrArg hotCacheSize same).symm.trans cache,
    (congrArg confirmationsForCheckpoint same).symm.trans interval, sameHot ▸ hot,
    sameOrder ▸ distinct, sameHot ▸ sameOrder ▸ queued, ?_⟩
  intro contents present hash
  have sameDisk : first.database.map (fun database => { database with children := ∅ }) =
      second.database.map fun database => { database with children := ∅ } := congrArg database same
  rw [present, map_some, map_eq_some_iff] at sameDisk
  obtain ⟨own, ownPresent, equal⟩ := sameDisk
  rw [← disk own ownPresent hash]
  exact congrArg (fun database => database.blocks.lookup hash) equal.symm

section Stores

variable {blocks : List Block} {storage : DagStorage} (stores : storage.Stores blocks)

include stores

theorem Stores.find_of_getBlock (found : storage.getBlock hash = some block) :
    find blocks hash = some block := by
  unfold getBlock at found
  cases cached : storage.hotBlocks.lookup hash with
  | some other =>
    rw [cached] at found
    exact found ▸ stores.hot hash other cached
  | none =>
    rw [cached] at found
    obtain ⟨database, present, onDisk⟩ := bind_eq_some_iff.mp found
    rw [← stores.disk database present hash]
    exact onDisk

theorem Stores.getBlock_of_database (persistent : storage.database ≠ none) :
    storage.getBlock hash = find blocks hash := by
  obtain ⟨database, present⟩ := ne_none_iff_exists'.mp persistent
  unfold getBlock
  cases cached : storage.hotBlocks.lookup hash with
  | some block => exact (stores.hot hash block cached).symm
  | none =>
    rw [present]
    exact stores.disk database present hash

theorem Stores.known_of_hot (cached : hash ∈ storage.hotBlocks) : hash ∈ hashes blocks := by
  obtain ⟨block, found⟩ := mem_iff.mp cached
  rw [← find_isSome_iff, stores.hot hash block found]
  rfl

theorem Stores.card_hotBlocks_le : storage.hotBlocks.keys.card ≤ blocks.length := by
  have keys : storage.hotBlocks.keys ⊆ (hashes blocks).toFinset := by
    intro hash cached
    rw [List.mem_toFinset]
    exact stores.known_of_hot (mem_keys.mp cached)
  have card := (Finset.card_le_card keys).trans (List.toFinset_card_le _)
  rwa [hashes, List.length_map] at card

theorem Stores.queues : storage.Queues := ⟨stores.distinct, stores.queued⟩

theorem Stores.drop {dropped order : List Hash}
    (queues : { dropped.foldl finalize storage with hotBlocksOrder := order }.Queues) :
    { dropped.foldl finalize storage with hotBlocksOrder := order }.Stores blocks := by
  have behind := sameBehindCache_foldl_finalize storage dropped
  refine ⟨behind.hotCacheSize.trans stores.cache,
    behind.confirmationsForCheckpoint.trans stores.interval, ?_, queues.distinct, queues.queued, ?_⟩
  · intro hash block found
    rw [hotBlocks_foldl_finalize] at found
    split at found
    · cases found
    · exact stores.hot hash block found
  · intro database present
    exact stores.disk database (behind.database ▸ present)

theorem Stores.pruneBlocksByHash (dropped : List Hash) :
    (storage.pruneBlocksByHash dropped).Stores blocks :=
  stores.drop (stores.queues.pruneBlocksByHash dropped)

variable {block : Block} (fresh : block.hash ∉ hashes blocks)

include fresh

theorem Stores.cacheBlock : (storage.cacheBlock block).hotBlocksOrder = storage.hotBlocksOrder ++
      [block.hash] ∧ block.hash ∉ storage.hotBlocksOrder := by
  have uncached : block.hash ∉ storage.hotBlocks := fun cached => fresh (stores.known_of_hot cached)
  exact ⟨by simp [DagStorage.cacheBlock, uncached],
    fun queued => uncached ((stores.queued _).mp queued)⟩

/-- A new block in the cache and on disk, ahead of any eviction. -/
theorem Stores.persistBlock :
    ((storage.cacheBlock block).persistBlock block).Stores (blocks ++ [block]) := by
  obtain ⟨distinct, queued⟩ := stores.queues.cacheBlock block
  have extended : ∀ hash, find (blocks ++ [block]) hash =
      if hash = block.hash then some block else find blocks hash :=
    find_append_singleton fresh
  refine Stores.congr (withoutChildren_persistBlock _ block).symm ?_
  refine ⟨stores.cache, stores.interval, ?_, distinct, queued, ?_⟩
  · intro hash other found
    rw [extended]
    simp only [DagStorage.cacheBlock, lookup_write] at found
    split at found
    · rename_i same
      rwa [if_pos same]
    · rename_i different
      rw [if_neg different]
      exact stores.hot hash other found
  · intro contents present hash
    rw [extended]
    obtain ⟨database, before, rfl⟩ := map_eq_some_iff.mp present
    simp only [lookup_write]
    rw [stores.disk database before]

theorem Stores.hotBlocksOrder_persistBlock :
    ((storage.cacheBlock block).persistBlock block).hotBlocksOrder = storage.hotBlocksOrder ++
      [block.hash] := by
  rw [← (stores.cacheBlock fresh).1]
  exact (congrArg DagStorage.hotBlocksOrder (withoutChildren_persistBlock _ block) :)

/-- Inserting a block drops the oldest blocks of the cache, never the new one. -/
theorem Stores.addBlock_eq : ∃ count, storage.addBlock block =
      { (storage.hotBlocksOrder.take count).foldl finalize
        ((storage.cacheBlock block).persistBlock block) with
        hotBlocksOrder := storage.hotBlocksOrder.drop count ++ [block.hash] } := by
  have stored := stores.persistBlock fresh
  have order := stores.hotBlocksOrder_persistBlock fresh
  have excess : storage.hotBlocksOrder.length + 1 - 1000 ≤ storage.hotBlocksOrder.length := by omega
  refine ⟨storage.hotBlocksOrder.length + 1 - 1000, ?_⟩
  rw [DagStorage.addBlock_eq, stored.queues.pruneHotCache_eq, stored.cache, order,
    List.length_append,
    List.length_singleton, List.take_append_of_le_length excess,
      List.drop_append_of_le_length excess]

theorem Stores.addBlock_of_room (room : storage.hotBlocks.keys.card < 1000) :
    storage.addBlock block = (storage.cacheBlock block).persistBlock block := by
  have stored := stores.persistBlock fresh
  have order := stores.hotBlocksOrder_persistBlock fresh
  rw [stores.queues.card_hotBlocks] at room
  unfold DagStorage.addBlock
  dsimp only
  rw [stored.cache, stored.queues.card_hotBlocks, order, List.length_append, List.length_singleton,
    if_neg (by omega)]

theorem Stores.addBlock : (storage.addBlock block).Stores (blocks ++ [block]) := by
  have stored := stores.persistBlock fresh
  have queues := stored.queues.pruneHotCache
  rw [DagStorage.addBlock_eq]
  rw [stored.queues.pruneHotCache_eq] at queues ⊢
  exact stored.drop queues

/-- The blocks in the cache after an insertion are the new one and some of the old ones. -/
theorem Stores.hotBlocks_addBlock : (storage.addBlock block).hotBlocks.lookup block.hash =
    some block ∧
      ∀ hash ∈ (storage.addBlock block).hotBlocks, hash = block.hash ∨
        hash ∈ storage.hotBlocks := by
  obtain ⟨-, unqueued⟩ := stores.cacheBlock fresh
  obtain ⟨count, added⟩ := stores.addBlock_eq fresh
  have cached : ((storage.cacheBlock block).persistBlock block).hotBlocks =
      storage.hotBlocks.insert block.hash block :=
    (congrArg DagStorage.hotBlocks (withoutChildren_persistBlock _ block) :)
  have lookup : ∀ hash, (storage.addBlock block).hotBlocks.lookup hash =
      if hash ∈ storage.hotBlocksOrder.take count then none
      else if hash = block.hash then some block else storage.hotBlocks.lookup hash := by
    intro hash
    rw [added]
    refine (hotBlocks_foldl_finalize _ _).trans ?_
    rw [cached, lookup_write]
  constructor
  · rw [lookup, if_neg (fun old => unqueued (List.mem_of_mem_take old)), if_pos rfl]
  · intro hash member
    rw [← lookup_isSome, lookup] at member
    split at member
    · cases member
    · split at member
      · exact .inl ‹_›
      · exact .inr (lookup_isSome.mp member)

end Stores

end DagStorage

namespace GhostDag

theorem withoutChildren_insertBlock (dag : GhostDag) (block : Block) :
    (dag.insertBlock block).storage.withoutChildren =
      (dag.storage.addBlock block).withoutChildren :=
  withoutChildren_foldl (withoutChildren_linkChild block.hash) _ _

theorem hotBlocks_insertBlock (dag : GhostDag) (block : Block) :
    (dag.insertBlock block).storage.hotBlocks = (dag.storage.addBlock block).hotBlocks :=
  (congrArg DagStorage.hotBlocks (dag.withoutChildren_insertBlock block) :)

section Insert

variable {blocks : List Block} {dag : GhostDag} (stores : dag.storage.Stores blocks) {block : Block}
  (fresh : block.hash ∉ hashes blocks)

include stores fresh

theorem stores_insertBlock : (dag.insertBlock block).storage.Stores (blocks ++ [block]) :=
  (stores.addBlock fresh).congr (dag.withoutChildren_insertBlock block).symm

theorem hot_insertBlock :
    (dag.insertBlock block).storage.hotBlocks.lookup block.hash = some block := by
  rw [hotBlocks_insertBlock]
  exact (stores.hotBlocks_addBlock fresh).1

theorem getBlock_insertBlock :
    (dag.insertBlock block).storage.getBlock block.hash = some block := by
  rw [DagStorage.getBlock, hot_insertBlock stores fresh]

theorem hot_insertBlock_of_room (room : dag.storage.hotBlocks.keys.card < 1000)
    (cached : hash ∈ dag.storage.hotBlocks) : hash ∈ (dag.insertBlock block).storage.hotBlocks := by
  have sameHot : (dag.insertBlock block).storage.hotBlocks =
      dag.storage.hotBlocks.insert block.hash block := by
    rw [hotBlocks_insertBlock, stores.addBlock_of_room fresh room]
    exact (congrArg hotBlocks (withoutChildren_persistBlock _ block) :)
  rw [sameHot]
  exact mem_insert.mpr (.inr cached)

theorem database_insertBlock :
    (dag.insertBlock block).storage.database = none ↔ dag.storage.database = none := by
  obtain ⟨count, added⟩ := stores.addBlock_eq fresh
  refine (database_of_withoutChildren (dag.withoutChildren_insertBlock block)).trans ?_
  rw [added, (sameBehindCache_foldl_finalize _ _).database]
  refine (database_of_withoutChildren (withoutChildren_persistBlock _ block)).trans ?_
  exact map_eq_none_iff

theorem hot_of_hot_insertBlock (cached : hash ∈ (dag.insertBlock block).storage.hotBlocks) :
    hash = block.hash ∨ hash ∈ dag.storage.hotBlocks := by
  rw [hotBlocks_insertBlock] at cached
  exact (stores.hotBlocks_addBlock fresh).2 hash cached

end Insert

end GhostDag

end IronDag
