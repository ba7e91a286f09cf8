import IronDag.Consensus.Delivery

/-!
What a GhostDAG holds after a delivery in which parents come first: every block is blue, scores
are depths, and the ordering is the result of inserting the blocks one by one.
-/

namespace IronDag

open Delivery List GhostDag DagStorage

/-- The cache holds exactly the delivered blocks, each with its children. -/
structure DagStorage.Holds (blocks : List Block) (storage : DagStorage) : Prop where
  cache : storage.hotCacheSize = 1000
  interval : storage.confirmationsForCheckpoint = 100
  found : ∀ hash, storage.hotBlocks.lookup hash = find blocks hash
  children : ∀ hash, storage.hotChildren.lookup hash =
    if hash ∈ hashes blocks then some (childrenOf blocks hash) else none

variable {hash : Hash}

namespace DagStorage

variable {storage : DagStorage}

theorem Holds.getBlock (holds : storage.Holds blocks) (order : ParentsFirst blocks)
    (member : block ∈ blocks) : storage.getBlock block.hash = some block := by
  have present := (find_eq_some_iff (nodup_hashes order)).mpr ⟨member, rfl⟩
  simp [DagStorage.getBlock, holds.found, present]

theorem Holds.getChildren (holds : storage.Holds blocks)
    (member : hash ∈ hashes blocks) : storage.getChildren hash = childrenOf blocks hash := by
  simp [DagStorage.getChildren, holds.children, member]

/-- While a new block is linked in: the parents in `done` already list it as their last child. -/
def Linking (blocks : List Block) (child : Hash) (done : List Hash) (storage : DagStorage) : Prop :=
  ∀ hash, storage.hotChildren.lookup hash =
    if hash ∈ hashes blocks then
      some (childrenOf blocks hash ++ if hash ∈ done then [child] else [])
    else
      none

/-- Caching and persisting keeps the configuration and links the block into some of the lists of
its parents. -/
def Inserting (blocks : List Block) (block : Block) (stored : DagStorage) : Prop :=
  stored.hotCacheSize = 1000 ∧ stored.confirmationsForCheckpoint = 100 ∧
    (∀ hash, stored.hotBlocks.lookup hash = find (blocks ++ [block]) hash) ∧
    ∃ done, (∀ hash ∈ done, hash ∈ block.parents) ∧ Linking blocks block.hash done stored

section Linking

variable (linking : Linking blocks child done storage) (fresh : child ∉ hashes blocks)

include linking

theorem Linking.getChildren (member : parent ∈ hashes blocks) :
    storage.getChildren parent =
      childrenOf blocks parent ++ if parent ∈ done then [child] else [] := by
  simp [DagStorage.getChildren, linking parent, member]

include fresh

variable (member : parent ∈ hashes blocks)

include member

theorem Linking.mem_getChildren : child ∈ storage.getChildren parent ↔ parent ∈ done := by
  have notOld : child ∉ childrenOf blocks parent := fun listed => by
    obtain ⟨block, inBlocks, same⟩ := mem_map.mp listed
    exact fresh (mem_map.mpr ⟨block, (mem_filter.mp inBlocks).1, same⟩)
  rw [linking.getChildren member]
  by_cases linked : parent ∈ done <;> simp [notOld]

theorem Linking.append {next : DagStorage} (updated : next.hotChildren =
      if child ∈ storage.getChildren parent then storage.hotChildren
      else storage.hotChildren.insert parent (storage.getChildren parent ++ [child])) :
    Linking blocks child (parent :: done) next := by
  intro hash
  rw [updated]
  by_cases linked : parent ∈ done
  · rw [if_pos ((linking.mem_getChildren fresh member).mpr linked), linking hash]
    have same : hash ∈ parent :: done ↔ hash ∈ done := by
      rw [mem_cons]
      exact ⟨fun either => either.elim (fun equal => equal ▸ linked) id, .inr⟩
    simp only [same]
  · rw [if_neg (fun listed => linked ((linking.mem_getChildren fresh member).mp listed)),
      Table.lookup_write, linking.getChildren member, linking hash]
    by_cases same : hash = parent
    · subst same
      simp [member, linked]
    · simp [same]

theorem Linking.linkChild :
    Linking blocks child (parent :: done) (linkChild child storage parent) := by
  refine linking.append fresh member ?_
  unfold GhostDag.linkChild
  split <;> rfl

theorem Linking.persistChild : ∃ linked, (∀ hash ∈ linked, hash = parent ∨ hash ∈ done) ∧
      Linking blocks child linked (persistChild child storage parent) := by
  have cached : parent ∈ storage.hotChildren := by
    rw [← Finmap.lookup_isSome, linking parent, if_pos member]
    rfl
  cases database : storage.database with
  | none =>
    refine ⟨done, fun hash linked => .inr linked, ?_⟩
    simpa [DagStorage.persistChild, database] using linking
  | some contents =>
    refine ⟨parent :: done, fun hash linked => mem_cons.mp linked, linking.append fresh member ?_⟩
    simp only [DagStorage.persistChild, database]
    split <;> rfl

end Linking

section Frames

variable (child : Hash) (storage : DagStorage) (parent : Hash)

theorem persistChild_frame : (persistChild child storage parent).hotBlocks = storage.hotBlocks ∧
      (persistChild child storage parent).hotCacheSize = storage.hotCacheSize ∧
      (persistChild child storage parent).confirmationsForCheckpoint =
        storage.confirmationsForCheckpoint := by
  unfold persistChild
  split
  · exact ⟨rfl, rfl, rfl⟩
  · dsimp only
    split <;> exact ⟨rfl, rfl, rfl⟩

theorem linkChild_frame : (linkChild child storage parent).hotBlocks = storage.hotBlocks ∧
      (linkChild child storage parent).hotCacheSize = storage.hotCacheSize ∧
      (linkChild child storage parent).confirmationsForCheckpoint =
        storage.confirmationsForCheckpoint := by
  unfold linkChild
  split <;> exact ⟨rfl, rfl, rfl⟩

end Frames

section Insert

variable {storage : DagStorage} (holds : storage.Holds blocks)
  (order : ParentsFirst (blocks ++ [block]))

include order

theorem childrenOf_new : childrenOf blocks block.hash = [] := by
  obtain ⟨frontOrder, fresh, -⟩ := parentsFirst_append_singleton.mp order
  rw [childrenOf, hashes, map_eq_nil_iff, filter_eq_nil_iff]
  intro other member isParent
  refine fresh (parentsOf_mem frontOrder (mem_map_of_mem member) ?_)
  simpa [parentsOf_of_mem (nodup_hashes frontOrder) member] using isParent

include holds

theorem Holds.persistBlock :
    Inserting blocks block ((storage.cacheBlock block).persistBlock block) := by
  obtain ⟨-, fresh, closed⟩ := parentsFirst_append_singleton.mp order
  -- one parent after the other; the blocks and the configuration are not touched
  refine foldlRecOn (motive := Inserting blocks block) _ _ ?_ ?_
  · refine ⟨holds.cache, holds.interval, ?_, [], by simp, ?_⟩
    · intro hash
      rw [find_append_singleton fresh, ← holds.found]
      exact Table.lookup_write
    · intro hash
      simpa [DagStorage.cacheBlock] using holds.children hash
  · rintro stored ⟨cache, interval, found, done, isParent, linking⟩ parent member
    obtain ⟨linked, grown, linking⟩ := linking.persistChild fresh (closed parent member)
    obtain ⟨sameBlocks, sameCache, sameInterval⟩ := persistChild_frame block.hash stored parent
    refine ⟨sameCache.trans cache, sameInterval.trans interval, ?_, linked, ?_, linking⟩
    · simpa only [sameBlocks] using found
    · intro hash inLinked
      rcases grown hash inLinked with rfl | old
      · exact member
      · exact isParent hash old

theorem Holds.addBlock (few : (blocks ++ [block]).length ≤ 1000) :
    storage.addBlock block = (storage.cacheBlock block).persistBlock block := by
  obtain ⟨cache, -, found, -⟩ := holds.persistBlock order
  have keys : ((storage.cacheBlock block).persistBlock block).hotBlocks.keys =
      (hashes (blocks ++ [block])).toFinset := by
    ext hash
    rw [Finmap.mem_keys, ← Finmap.lookup_isSome, found, find_isSome_iff, mem_toFinset]
  have bounded := toFinset_card_le (hashes (blocks ++ [block]))
  rw [hashes, length_map] at bounded
  unfold DagStorage.addBlock
  simp only [keys]
  rw [if_neg (by rw [hashes]; omega)]

/-- The storage part of adding a block. -/
theorem Holds.insert (few : (blocks ++ [block]).length ≤ 1000) :
    ((block.parents.foldl (linkChild block.hash) (storage.addBlock block)).setChildren
      block.hash []).Holds (blocks ++ [block]) := by
  obtain ⟨-, fresh, closed⟩ := parentsFirst_append_singleton.mp order
  obtain ⟨cache, interval, found, done, isParent, linking⟩ := holds.persistBlock order
  rw [holds.addBlock order few]
  generalize (storage.cacheBlock block).persistBlock block = stored at *
  -- the remaining parents are linked one after the other
  have linked : ∀ (pending done : List Hash) (stored : DagStorage),
      (∀ hash ∈ pending, hash ∈ hashes blocks) → Linking blocks block.hash done stored →
      Linking blocks block.hash (pending.reverse ++ done)
        (pending.foldl (linkChild block.hash) stored) ∧
      (pending.foldl (linkChild block.hash) stored).hotBlocks = stored.hotBlocks ∧
      (pending.foldl (linkChild block.hash) stored).hotCacheSize = stored.hotCacheSize ∧
      (pending.foldl (linkChild block.hash) stored).confirmationsForCheckpoint =
        stored.confirmationsForCheckpoint := by
    intro pending
    induction pending with
    | nil => intro done stored _ linking; exact ⟨by simpa using linking, rfl, rfl, rfl⟩
    | cons parent rest ih =>
      intro done stored inside linking
      obtain ⟨finished, same⟩ := ih (parent :: done) (linkChild block.hash stored parent)
        (fun hash member => inside hash (by simp [member]))
          (linking.linkChild fresh (inside parent (by simp)))
      have frame := linkChild_frame block.hash stored parent
      refine ⟨by simpa using finished, ?_⟩
      simpa only [foldl_cons, frame.1, frame.2.1, frame.2.2] using same
  obtain ⟨finished, sameBlocks, sameCache, sameInterval⟩ :=
    linked block.parents done stored closed linking
  refine ⟨sameCache.trans cache, sameInterval.trans interval, ?_, ?_⟩
  · intro hash
    rw [← found hash, ← sameBlocks]
    rfl
  · intro hash
    have inDone : hash ∈ block.parents.reverse ++ done ↔ hash ∈ block.parents := by
      rw [mem_append, mem_reverse]
      exact ⟨fun either => either.elim id (isParent hash), .inl⟩
    unfold DagStorage.setChildren
    rw [Table.lookup_write, finished hash, hashes_append_singleton, childrenOf_append_singleton]
    by_cases same : hash = block.hash
    · subst same
      have notParent : block.hash ∉ block.parents := fun isParent => fresh (closed _ isParent)
      simp [notParent, childrenOf_new order]
    · simp [same, inDone]

end Insert

end DagStorage

theorem maxScore_eq_none : maxScore scores = none ↔ scores = [] := by
  cases scores <;> simp [maxScore]

theorem maxScore_toNat (found : maxScore scores = some best) :
    best.toNat = Height.largest (scores.map BitVec.toNat) := by
  have general : ∀ (rest : List U64) (first : U64),
      (rest.foldl (fun best next => if best ≤ next then next else best) first).toNat =
        max first.toNat (Height.largest (rest.map BitVec.toNat)) := by
    intro rest
    induction rest with
    | nil => simp [Height.largest]
    | cons next rest ih =>
      intro first
      rw [foldl_cons, ih]
      simp only [map_cons, Height.largest, foldr_cons]
      split
      · rename_i ordered
        rw [BitVec.le_def] at ordered
        omega
      · rename_i unordered
        rw [BitVec.le_def] at unordered
        omega
  cases scores with
  | nil => simp [maxScore] at found
  | cons first rest =>
    simp only [maxScore, Option.some_inj] at found
    rw [← found, general]
    rfl

/-- The score above given ones, as long as those fit into 64 bits. -/
theorem maxScore_map_ofNat {value : Hash → Nat} (nonempty : parents ≠ [])
    (bounded : ∀ parent ∈ parents, value parent < 2 ^ 64) :
    ∃ best, maxScore (parents.map fun parent => BitVec.ofNat 64 (value parent)) = some best ∧
      best + 1 = BitVec.ofNat 64 (1 + Height.largest (parents.map value)) := by
  cases found : maxScore (parents.map fun parent => BitVec.ofNat 64 (value parent)) with
  | none =>
    rw [maxScore_eq_none, map_eq_nil_iff] at found
    exact absurd found nonempty
  | some best =>
    refine ⟨best, rfl, ?_⟩
    have largest := maxScore_toNat found
    rw [map_map, map_congr_left (g := value) fun parent member => by
      simpa using bounded parent member] at largest
    rw [← BitVec.toNat_inj, BitVec.toNat_add, largest, Nat.add_comm]
    rfl

namespace GhostDag

/-- Nothing about the block is recorded yet. -/
structure Uncolored (dag : GhostDag) (hash : Hash) : Prop where
  notBlue : hash ∉ dag.blueSet
  notRed : hash ∉ dag.redSet
  noScore : dag.blueScore.lookup hash = none

variable {dag : GhostDag} {blocks : List Block}

theorem clearAffected_uncolored (uncolored : dag.Uncolored hash) :
    dag.clearAffected {hash} = { dag, added := ∅, removed := ∅ } := by
  have scores : Table.retain (fun other _ => decide (other ∉ ({hash} : Finset Hash)))
      dag.blueScore = dag.blueScore := by
    apply Finmap.ext_lookup
    intro other
    rw [Table.lookup_retain]
    by_cases same : other = hash
    · subst same
      simp [uncolored.noScore]
    · simp [same]
      cases dag.blueScore.lookup other <;> rfl
  have blue : dag.blueSet \ {hash} = dag.blueSet := by
    rw [Finset.sdiff_singleton_eq_erase, Finset.erase_eq_of_notMem uncolored.notBlue]
  have red : dag.redSet \ {hash} = dag.redSet := by
    rw [Finset.sdiff_singleton_eq_erase, Finset.erase_eq_of_notMem uncolored.notRed]
  have none_removed : dag.blueSet ∩ {hash} = ∅ := by
    rw [Finset.inter_singleton_of_notMem uncolored.notBlue]
  simp only [clearAffected, blue, red, scores, none_removed]

@[simp] theorem topologicalLoop_nil : dag.topologicalLoop affected fuel (degrees, []) = [] := by
  cases fuel <;> rfl

theorem topologicalOrder_tip
    (found : dag.storage.getBlock hash = some block) (tip : dag.storage.getChildren hash = [])
    (irreflexive : hash ∉ block.parents) : dag.topologicalOrder [hash] = [hash] := by
  have none_inside :
      block.header.parentHashes.countP (fun parent => decide (parent ∈ [hash])) = 0 := by
    rw [countP_eq_zero]
    intro parent isParent inside
    simp only [mem_singleton, decide_eq_true_eq] at inside
    exact irreflexive (inside ▸ isParent)
  have degrees : dag.inDegrees [hash] = (∅ : Table Hash Nat).insert hash 0 := by
    simp only [inDegrees, foldl_cons, foldl_nil, found, none_inside]
  simp [topologicalOrder, degrees, topologicalLoop, traversalFuel, tip]

section Tip

variable {dag : GhostDag} {hash : Hash} (found : dag.storage.getBlock hash = some block)
  (tip : dag.storage.getChildren hash = []) (irreflexive : hash ∉ block.parents)
    (uncolored : dag.Uncolored hash)

include found tip irreflexive uncolored

/-- A new tip is classified once, and the fallback finds nothing to do if that makes it blue. -/
theorem recompute_tip (classified : classify { dag, added := ∅, removed := ∅ } hash = colored)
    (blue : hash ∈ colored.dag.blueSet) :
    dag.recompute search iteration hash = updateOrdering search iteration colored := by
  have affected : dag.affectedBy hash = {hash} := by
    simp [affectedBy, tip]
  have fallback : applyFallback iteration {hash} hash colored = colored := by
    simp [applyFallback, blue]
  simp only [recompute, affected, clearAffected_uncolored uncolored, SetIteration.toList_singleton,
    topologicalOrder_tip found tip irreflexive, foldl_cons, foldl_nil, classified, fallback]

theorem recompute_tip_scored (scored : maxScore (dag.parentScores block.parents) = some best) :
    dag.recompute search iteration hash =
      (dag.markBlue hash (best + 1)).insertOrdered search hash := by
  have classified : classify { dag, added := ∅, removed := ∅ } hash =
      { dag := dag.markBlue hash (best + 1), added := {hash}, removed := ∅ } := by
    simp only [classify, found, scored]
    simp
  rw [recompute_tip found tip irreflexive uncolored classified (by simp [markBlue])]
  simp [updateOrdering]

theorem recompute_tip_root (root : block.parents = []) :
    dag.recompute search iteration hash = dag.markBlue hash 1 := by
  have classified : classify { dag, added := ∅, removed := ∅ } hash =
      { dag := dag.markBlue hash 1, added := ∅, removed := ∅ } := by
    simp only [classify, found, root, parentScores, filter_nil, filterMap_nil, maxScore, if_true]
  rw [recompute_tip found tip irreflexive uncolored classified (by simp [markBlue])]
  simp [updateOrdering]

end Tip

/-- The blocks that enter the ordering: the first, and every later one that has a parent. -/
def placed (blocks : List Block) : List Hash :=
  hashes (blocks.take 1 ++ (blocks.drop 1).filter fun block => decide (block.parents ≠ []))

theorem placed_append_singleton {block : Block} (nonempty : blocks ≠ []) :
    placed (blocks ++ [block]) =
      placed blocks ++ if block.parents = [] then [] else [block.hash] := by
  obtain ⟨first, rest, rfl⟩ := exists_cons_of_ne_nil nonempty
  by_cases root : block.parents = [] <;> simp [placed, hashes, root]

theorem placed_subset (member : hash ∈ placed blocks) : hash ∈ hashes blocks := by
  cases blocks with
  | nil => simpa [placed] using member
  | cons first rest =>
    simp only [placed, hashes, take_succ_cons, take_zero, drop_succ_cons, drop_zero,
      map_append, map_cons, map_nil, mem_append, mem_singleton] at member
    rcases member with rfl | later
    · simp [hashes]
    · obtain ⟨block, kept, rfl⟩ := mem_map.mp later
      simp only [hashes, map_cons, mem_cons]
      exact .inr (mem_map_of_mem (mem_filter.mp kept).1)

theorem length_placed_append_le {front back : List Block} :
    (placed front).length ≤ (placed (front ++ back)).length := by
  cases front with
  | nil => simp [placed, hashes]
  | cons first rest =>
    simp [placed, hashes]

theorem length_placed_le : (placed blocks).length ≤ blocks.length := by
  cases blocks with
  | nil => simp [placed, hashes]
  | cons first rest =>
    have kept := length_filter_le (fun block => decide (block.parents ≠ [])) rest
    simp only [placed, hashes, length_map, length_append, take_succ_cons, take_zero,
      drop_succ_cons, drop_zero, length_cons, length_nil]
    omega

/-- The colours after a delivery: every block is blue and its score is its depth. -/
structure Colored (blocks : List Block) (dag : GhostDag) : Prop where
  stored : dag.storage.Holds blocks
  genesis : dag.genesisHash = blocks.head?.map Block.hash
  blue : dag.blueSet = (hashes blocks).toFinset
  red : dag.redSet = ∅
  scores : ∀ hash, dag.blueScore.lookup hash =
    if hash ∈ hashes blocks then some (BitVec.ofNat 64 (depth blocks hash)) else none
  timestamps : ∀ hash, dag.blockTimestamps.lookup hash =
    (find blocks hash).map fun block => block.header.timestamp

/-- The consensus state after a delivery. -/
structure Delivered (search : BinarySearch) (blocks : List Block) (dag : GhostDag) : Prop where
  colored : Colored blocks dag
  ordering : dag.ordering = search.insertAll (rank blocks) (placed blocks)

theorem Delivered.new (search : BinarySearch) (database : Option DagDatabase) :
    Delivered search [] (new database) := by
  refine ⟨⟨⟨rfl, rfl, ?_, ?_⟩, rfl, rfl, rfl, ?_, ?_⟩, rfl⟩
  all_goals
    simp [GhostDag.new, DagStorage.new, find, hashes]

section Colored

variable (colored : Colored blocks dag) (few : blocks.length ≤ 1000)

include colored few

theorem Colored.scoreOf (member : hash ∈ hashes blocks) :
    (dag.scoreOf hash).toNat = depth blocks hash := by
  have bound := depth_le_length blocks hash
  rw [GhostDag.scoreOf, colored.scores, if_pos member]
  exact Nat.mod_eq_of_lt (by omega)

/-- The insertion comparator compares ranks. -/
theorem Colored.compareInsertion {hash probe : Hash} (member : hash ∈ hashes blocks)
    (probed : probe ∈ hashes blocks) :
    dag.compareInsertion (dag.scoreOf hash) (dag.timestampOf hash) probe =
      compare (rank blocks hash) (rank blocks probe) := by
  unfold GhostDag.compareInsertion timestampOf
  rw [colored.scoreOf few member, colored.scoreOf few probed,
    colored.timestamps, colored.timestamps]
  rfl

theorem Colored.insertOrdered (member : hash ∈ hashes blocks)
    (ordered : ∀ probe ∈ dag.ordering, probe ∈ hashes blocks) :
    (dag.insertOrdered search hash).ordering =
      search.insertRanked (rank blocks) dag.ordering hash := by
  unfold GhostDag.insertOrdered BinarySearch.insertRanked BinarySearch.answers
  rw [map_congr_left fun probe probed => colored.compareInsertion few member (ordered probe probed)]

end Colored

section Step

variable {search : BinarySearch} {iteration : SetIteration Hash} {blocks : List Block}
  {block : Block}
  {dag : GhostDag} (order : ParentsFirst (blocks ++ [block]))
    (few : (blocks ++ [block]).length ≤ 1000)

include order few

theorem Colored.insertBlock (colored : Colored blocks dag) :
    (dag.insertBlock block).storage.Holds (blocks ++ [block]) ∧
      (dag.insertBlock block).genesisHash = (blocks ++ [block]).head?.map Block.hash ∧
      (∀ hash, (dag.insertBlock block).blockTimestamps.lookup hash =
        (find (blocks ++ [block]) hash).map fun block => block.header.timestamp) ∧
      (dag.insertBlock block).Uncolored block.hash := by
  obtain ⟨-, fresh, closed⟩ := parentsFirst_append_singleton.mp order
  refine ⟨colored.stored.insert order (by omega), ?_, ?_, ?_, ?_, ?_⟩
  · cases blocks with
    | nil => simp [insertBlock, colored.genesis, genesis_parents order]
    | cons first rest => simp [insertBlock, colored.genesis]
  · intro hash
    rw [find_append_singleton fresh]
    show (dag.blockTimestamps.insert block.hash block.header.timestamp).lookup hash = _
    rw [Table.lookup_write, colored.timestamps]
    split <;> rfl
  · show block.hash ∉ dag.blueSet
    rw [colored.blue, mem_toFinset]
    exact fresh
  · show block.hash ∉ dag.redSet
    simp [colored.red]
  · show dag.blueScore.lookup block.hash = none
    rw [colored.scores, if_neg fresh]

/-- Marking the new block blue with its depth extends the colours. -/
theorem Colored.markBlue (colored : Colored blocks dag) {score : U64}
    (deep : score = BitVec.ofNat 64 (depth (blocks ++ [block]) block.hash)) :
    Colored (blocks ++ [block]) ((dag.insertBlock block).markBlue block.hash score) := by
  obtain ⟨stored, genesis, timestamps, -⟩ := colored.insertBlock order few
  refine ⟨stored, genesis, ?_, colored.red, ?_, timestamps⟩
  · show insert block.hash dag.blueSet = _
    rw [colored.blue, hashes_append_singleton]
    simp
  · intro hash
    show (dag.blueScore.insert block.hash score).lookup hash = _
    rw [Table.lookup_write, colored.scores, hashes_append_singleton]
    by_cases same : hash = block.hash
    · subst same
      simp [deep]
    · by_cases member : hash ∈ hashes blocks
      · simp [same, depth_append order member]
      · simp [same, member]

/-- The score of a new block with parents is its depth. -/
theorem Colored.parentScores (colored : Colored blocks dag) (hasParent : block.parents ≠ []) :
    ∃ best, maxScore ((dag.insertBlock block).parentScores block.parents) = some best ∧
      best + 1 = BitVec.ofNat 64 (depth (blocks ++ [block]) block.hash) := by
  obtain ⟨-, fresh, closed⟩ := parentsFirst_append_singleton.mp order
  have allBlue : block.parents.filter (fun parent => decide (parent ∈ dag.blueSet)) =
      block.parents := by
    rw [filter_eq_self]
    intro parent isParent
    simpa [colored.blue] using closed parent isParent
  have scores : (dag.insertBlock block).parentScores block.parents =
      block.parents.map fun parent => BitVec.ofNat 64 (depth blocks parent) := by
    show (block.parents.filter (fun parent => decide (parent ∈ dag.blueSet))).filterMap
      dag.blueScore.lookup = _
    rw [allBlue, ← filterMap_eq_map]
    apply filterMap_congr
    intro parent isParent
    simp [colored.scores, closed parent isParent]
  have bounded : ∀ parent ∈ block.parents, depth blocks parent < 2 ^ 64 := by
    intro parent _
    have bound := depth_le_length blocks parent
    simp only [length_append] at few
    omega
  rw [scores, depth_new order]
  exact maxScore_map_ofNat hasParent bounded

theorem Delivered.color (delivered : Delivered search blocks dag) (nonempty : blocks ≠ []) :
    Delivered search (blocks ++ [block])
      ((dag.insertBlock block).updateBlueSetIncremental search iteration block.hash) := by
  obtain ⟨colored, ordering⟩ := delivered
  obtain ⟨frontOrder, fresh, closed⟩ := parentsFirst_append_singleton.mp order
  obtain ⟨stored, genesis, -, uncolored⟩ := colored.insertBlock order few
  have found : (dag.insertBlock block).storage.getBlock block.hash =
      some block := stored.getBlock order (by simp)
  have irreflexive : block.hash ∉ block.parents := fun isParent => fresh (closed _ isParent)
  have tip : (dag.insertBlock block).storage.getChildren block.hash = [] := by
    rw [stored.getChildren (by simp [hashes]), childrenOf_append_singleton, childrenOf_new order,
      if_neg irreflexive]
    rfl
  have fromGenesis : ∃ first,
      (dag.insertBlock block).genesisHash.bind (dag.insertBlock block).storage.getBlock =
      some first := by
    obtain ⟨first, rest, rfl⟩ := exists_cons_of_ne_nil nonempty
    exact ⟨first,
      by simp [genesis, stored.getBlock order (show first ∈ first :: rest ++ [block] by simp)]⟩
  obtain ⟨first, fromGenesis⟩ := fromGenesis
  have current : (dag.insertBlock block).staleCheckpoint block.hash = false := by
    simp only [staleCheckpoint, found]
    cases parents : block.header.parentHashes with
    | nil => rfl
    | cons parent rest =>
      have blue : parent ∈ (dag.insertBlock block).blueSet := by
        show parent ∈ dag.blueSet
        rw [colored.blue, mem_toFinset]
        exact closed parent (by simp [parents])
      simp [blue]
  have samePrefix : search.insertAll (rank blocks) (placed blocks) =
      search.insertAll (rank (blocks ++ [block])) (placed blocks) :=
    search.insertAll_congr fun hash member => (rank_append order (placed_subset member)).symm
  simp only [updateBlueSetIncremental, fromGenesis, current, Bool.false_eq_true, if_false]
  by_cases root : block.parents = []
  · rw [recompute_tip_root found tip irreflexive uncolored root]
    refine ⟨colored.markBlue order few ?_, ?_⟩
    · rw [depth_new order, root]
      rfl
    · show dag.ordering = _
      rw [placed_append_singleton nonempty, if_pos root, append_nil, ordering, samePrefix]
  · obtain ⟨best, scored, deep⟩ := colored.parentScores order few root
    rw [recompute_tip_scored found tip irreflexive uncolored scored]
    have marked := colored.markBlue order few deep
    refine ⟨⟨marked.stored, marked.genesis, marked.blue, marked.red,
      marked.scores, marked.timestamps⟩, ?_⟩
    rw [marked.insertOrdered few (by simp [hashes])]
    · rw [placed_append_singleton nonempty, if_neg root, BinarySearch.insertAll_append_singleton,
        ← samePrefix, ← ordering]
      rfl
    · intro probe probed
      have inPlaced : probe ∈ placed blocks := by
        rw [← (search.insertAll_perm (rank blocks) (placed blocks)).mem_iff, ← ordering]
        exact probed
      rw [hashes_append_singleton]
      exact mem_append_left _ (placed_subset inPlaced)

theorem Delivered.color_genesis (delivered : Delivered search blocks dag) (first : blocks = []) :
    Delivered search (blocks ++ [block]) ((dag.insertBlock block).updateBlueSet iteration) := by
  subst first
  obtain ⟨-, fresh, closed⟩ := parentsFirst_append_singleton.mp order
  obtain ⟨stored, genesis, timestamps, -⟩ := delivered.colored.insertBlock order few
  have root := genesis_parents order
  have found : (dag.insertBlock block).storage.getBlock block.hash =
      some block := stored.getBlock order (by simp)
  have tip : (dag.insertBlock block).storage.getChildren block.hash = [] := by
    rw [stored.getChildren (by simp [hashes])]
    simp [childrenOf, hashes, root]
  have deep : depth ([] ++ [block]) block.hash = 1 := by
    rw [depth_new order, root]
    rfl
  have colors : (dag.insertBlock block).updateBlueSet iteration =
      { (dag.insertBlock block).resetTo block.hash with ordering := [block.hash] } := by
    have visited : Traversal.visitBreadthFirst
        (dag.insertBlock block).storage.getChildren scoreChild
        (dag.insertBlock block).traversalFuel [block.hash] [block.hash]
        ((dag.insertBlock block).resetTo block.hash) =
          (dag.insertBlock block).resetTo block.hash := by
      rw [traversalFuel, Traversal.visitBreadthFirst, tip]
      cases (dag.insertBlock block).storage.childEntries <;> rfl
    have sorted : ((dag.insertBlock block).resetTo block.hash).sortedOrdering iteration =
        [block.hash] := by
      simp [sortedOrdering, resetTo, found]
    simp only [updateBlueSet, genesis, nil_append, head?_cons, Option.map_some, found]
    rw [if_neg (by simpa using root), visited, sorted]
  rw [colors]
  refine ⟨⟨stored, genesis, ?_, rfl, ?_, timestamps⟩, ?_⟩
  · simp [resetTo, hashes]
  · intro hash
    simp only [resetTo]
    by_cases same : hash = block.hash
    · subst same
      rw [deep]
      simp [hashes]
    · simp [hashes, same]
  · exact (perm_singleton.mp (search.insertAll_perm _ _)).symm

omit order few in
/-- Pruning and checkpointing do not touch the consensus state of a short DAG. -/
theorem Delivered.finish (short : (placed (blocks ++ [block])).length ≤ 200)
    (delivered : Delivered search (blocks ++ [block]) dag) :
    Delivered search (blocks ++ [block])
      (if 0 < dag.storage.confirmationsForCheckpoint then
        dag.pruneBelowCheckpoint dag.storage.confirmationsForCheckpoint
      else dag).countCheckpoint := by
  have kept : dag.ordering.length ≤ 100 + 100 := by
    rw [delivered.ordering, (search.insertAll_perm _ _).length_eq]
    exact short
  have unpruned : dag.pruneBelowCheckpoint 100 = dag := if_pos kept
  simp only [delivered.colored.stored.interval, Nat.zero_lt_succ, if_true, unpruned]
  obtain ⟨⟨⟨cache, interval, found, children⟩, genesis, blue, red, scores, timestamps⟩, ordering⟩ :=
    delivered
  unfold countCheckpoint
  dsimp only
  split_ifs
  all_goals
    exact ⟨⟨⟨cache, interval, found, children⟩, genesis, blue, red, scores, timestamps⟩, ordering⟩

/-- The colouring part of a call, with the DAG still as it was delivered. -/
theorem Delivered.colorNew (delivered : Delivered search blocks dag) : Delivered search
    (blocks ++ [block])
      (if (dag.insertBlock block).blueSet = ∅ then (dag.insertBlock block).updateBlueSet iteration
        else (dag.insertBlock block).updateBlueSetIncremental search iteration block.hash) := by
  by_cases first : blocks = []
  · have uncolored : (dag.insertBlock block).blueSet = ∅ := by
      show dag.blueSet = ∅
      simp [delivered.colored.blue, first, hashes]
    rw [if_pos uncolored]
    exact delivered.color_genesis order few first
  · have someBlue : (dag.insertBlock block).blueSet ≠ ∅ := by
      show dag.blueSet ≠ ∅
      simpa [delivered.colored.blue, hashes] using first
    rw [if_neg someBlue]
    exact delivered.color order few first

theorem Delivered.addBlock (short : (placed (blocks ++ [block])).length ≤ 200)
    (delivered : Delivered search blocks dag) :
    Delivered search (blocks ++ [block]) (dag.addBlock search iteration block) :=
  Delivered.finish short (delivered.colorNew order few)

end Step

/-- Delivery of blocks one after the other. Every call iterates hash sets in its own order. -/
def deliver (search : BinarySearch) (iterations : Hash → SetIteration Hash) (blocks : List Block)
    (dag : GhostDag) : GhostDag :=
  blocks.foldl (fun dag block => dag.addBlock search (iterations block.hash) block) dag

theorem deliver_append_singleton {search : BinarySearch} {block : Block} :
    deliver search iterations (blocks ++ [block]) dag =
      (deliver search iterations blocks dag).addBlock search (iterations block.hash) block := by
  simp [deliver]

variable (search : BinarySearch) (iterations : Hash → SetIteration Hash)
  (database : Option DagDatabase) (order : ParentsFirst blocks)

include search iterations database order

/-- As long as nothing is pruned, a delivery leads to the state that the delivered DAG describes. -/
theorem deliver_spec_of_placed (few : blocks.length ≤ 1000) (short : (placed blocks).length ≤ 200) :
    Delivered search blocks (deliver search iterations blocks (GhostDag.new database)) := by
  induction blocks using reverseRecOn with
  | nil => exact Delivered.new search database
  | append_singleton front last ih =>
    obtain ⟨frontOrder, -, -⟩ := parentsFirst_append_singleton.mp order
    have fewBefore : front.length ≤ 1000 := by
      simp only [length_append] at few
      omega
    have shortBefore : (placed front).length ≤ 200 := length_placed_append_le.trans short
    rw [deliver_append_singleton]
    exact (ih frontOrder fewBefore shortBefore).addBlock order few short

theorem deliver_spec (few : blocks.length ≤ 200) :
    Delivered search blocks (deliver search iterations blocks (GhostDag.new database)) :=
  deliver_spec_of_placed search iterations database order (few.trans (by decide))
    (length_placed_le.trans few)

end GhostDag

end IronDag
