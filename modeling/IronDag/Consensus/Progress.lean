import IronDag.Consensus.OrderingInvariant

namespace IronDag

open Delivery Option Finmap GhostDag
open List hiding after length
open BinarySearch hiding position

namespace Delivery

variable (order : ParentsFirst blocks) (split : blocks = front ++ block :: back)

include order split

theorem new_of_parentsFirst : ParentsFirst (front ++ [block]) ∧ New front block := by
  obtain ⟨distinct, earlier⟩ := parentsFirst_iff.mp order
  have fresh := fresh_of_split distinct split
  have closed := earlier front block back split
  refine ⟨parentsFirst_append_singleton.mpr ⟨parentsFirst_iff.mpr ⟨?_, ?_⟩, fresh, closed⟩, fresh,
    fun own => fresh (closed _ own)⟩
  · rw [split, hashes, map_append] at distinct
    exact distinct.of_append_left
  · intro before other after inside parent isParent
    exact earlier before other (after ++ block :: back) (by simp [split, inside]) parent isParent

theorem hasParent_of_singleGenesis (single : SingleGenesis blocks) (later : front ≠ []) :
    block.parents ≠ [] := by
  intro root
  obtain ⟨genesis, -, -, unique⟩ := single
  obtain ⟨first, rest, rfl⟩ := exists_cons_of_ne_nil later
  have distinct := nodup_hashes order
  rw [split] at order
  have same : block = first :=
    (unique block (by simp [split]) root).trans
      (unique first (by simp [split]) (genesis_parents order)).symm
  exact fresh_of_split distinct split (by simp [hashes, same])

end Delivery

namespace GhostDag

theorem rankKey_markBlue_of_ne (dag : GhostDag) {hash other : Hash} (different : other ≠ hash)
    (score : U64) : (dag.markBlue hash score).rankKey other = dag.rankKey other := by
  rw [rankKey, scoreOf_markBlue_of_ne different]
  rfl

theorem rankKey_insertBlock_of_ne (dag : GhostDag) (different : other ≠ block.hash) :
    (dag.insertBlock block).rankKey other = dag.rankKey other := by
  simp [rankKey, scoreOf, timestampOf, insertBlock, different]

variable {hash : Hash}

theorem Pruned.rankKey (pruned : Pruned colored 100 after)
    (stays : hash ∉ colored.pruned 100) : after.rankKey hash = colored.rankKey hash := by
  rw [GhostDag.rankKey, GhostDag.rankKey, scoreOf, scoreOf, timestampOf, timestampOf, pruned.scores,
    pruned.times, if_neg stays, if_neg stays]

theorem unpruned_of_mem_take {colored : GhostDag} (distinct : colored.ordering.Nodup)
    (early : hash ∈ colored.ordering.take (100 + 100)) : hash ∉ colored.pruned 100 := by
  rw [← take_append_drop (100 + 100) colored.ordering] at distinct
  exact fun late => disjoint_of_nodup_append distinct early late

theorem Descends.pruned (sorted : colored.Descends) (distinct : colored.ordering.Nodup)
    (pruned : Pruned colored 100 after) : after.Descends := by
  refine sorted.of_sublist (pruned.ordering ▸ List.take_sublist _ _) fun hash member => ?_
  rw [pruned.ordering] at member
  exact pruned.rankKey (unpruned_of_mem_take distinct member)

/-- None of the parents is cached without any of them being blue. -/
def Unstale (dag : GhostDag) (block : Block) : Prop :=
  (∃ parent ∈ block.parents, parent ∈ dag.blueSet) ∨ ∀ parent ∈ block.parents,
    parent ∉ dag.storage.hotBlocks

instance (dag : GhostDag) (block : Block) : Decidable (Unstale dag block) :=
  have : Decidable (∃ parent ∈ block.parents, parent ∈ dag.blueSet) := decidableBEx ..
  have : Decidable (∀ parent ∈ block.parents, parent ∉ dag.storage.hotBlocks) := decidableBAll ..
  inferInstanceAs (Decidable (_ ∨ _))

theorem Known.someBlue (known : Known blocks dag) (started : dag.ordering ≠ []) :
    dag.blueSet ≠ ∅ := by
  obtain ⟨hash, member⟩ := List.exists_mem_of_ne_nil _ started
  exact Finset.ne_empty_of_mem (known.ordered hash member)

section Step

variable {search : BinarySearch} {iteration : SetIteration Hash} {blocks : List Block}
  {dag : GhostDag} {block : Block} (known : Known blocks dag) (new : New blocks block)

include known new

/-- Without a stale checkpoint, only three things can happen to a new block among blue ones. -/
theorem Unstale.outcome (unstale : Unstale dag block) (someBlue : dag.blueSet ≠ ∅)
    (outcome : Outcome search iteration (dag.insertBlock block) block colored) :
    (¬(dag.insertBlock block).GenesisStored ∧ colored = dag.insertBlock block) ∨
      (block.parents = [] ∧ colored = (dag.insertBlock block).markBlue block.hash 1) ∨
      (∃ best, (∃ parent ∈ block.parents, parent ∈ dag.blueSet) ∧
        maxScore (dag.parentScores block.parents) = some best ∧
        colored = ((dag.insertBlock block).markBlue block.hash (best + 1)).insertOrdered
          search block.hash) ∨
      (block.parents ≠ [] ∧ (∀ parent ∈ block.parents, parent ∉ dag.blueSet) ∧
        colored = (dag.insertBlock block).markRed block.hash) := by
  have fresh : ∀ parent ∈ block.parents, parent ∈ (dag.insertBlock block).storage.hotBlocks →
      parent ∈ dag.storage.hotBlocks := fun parent isParent hot =>
    (hot_of_hot_insertBlock known.stored new.fresh hot).resolve_left fun same =>
      new.irreflexive (same ▸ isParent)
  have notStale : (∀ parent ∈ block.parents, parent ∉ dag.blueSet) →
      ¬∃ parent ∈ block.parents, parent ∈ (dag.insertBlock block).storage.hotBlocks := by
    rintro noneBlue ⟨parent, isParent, hot⟩
    rcases unstale with ⟨other, isOther, blue⟩ | noneHot
    · exact noneBlue other isOther blue
    · exact noneHot parent isParent (fresh parent isParent hot)
  cases outcome with
  | full nothingBlue => exact absurd nothingBlue someBlue
  | skipped _ lost => exact .inl ⟨lost, rfl⟩
  | rebuilt _ _ noneBlue someHot | adopted _ _ noneBlue someHot =>
    exact absurd someHot (notStale noneBlue)
  | root _ _ root => exact .inr (.inl ⟨root, rfl⟩)
  | blue _ someBlue scored => exact .inr (.inr (.inl ⟨_, someBlue, scored, rfl⟩))
  | red _ _ hasParent noneBlue => exact .inr (.inr (.inr ⟨hasParent, noneBlue, rfl⟩))

theorem Descends.insertBlock (sorted : dag.Descends) : (dag.insertBlock block).Descends := by
  refine sorted.of_sublist (List.Sublist.refl _) fun hash member => ?_
  have delivered := known.blue hash (known.ordered hash member)
  exact rankKey_insertBlock_of_ne dag fun same => new.fresh (same ▸ delivered)

theorem Descends.markBlue (sorted : dag.Descends) (score : U64) :
    ((dag.insertBlock block).markBlue block.hash score).Descends := by
  refine (sorted.insertBlock known new).of_sublist (List.Sublist.refl _) fun hash member => ?_
  have delivered := known.blue hash (known.ordered hash member)
  exact rankKey_markBlue_of_ne _
    (fun same : hash = block.hash => new.fresh (same ▸ delivered)) score

/-- Every outcome without a rebuild keeps the ordering sorted. -/
theorem Descends.colored (sorted : dag.Descends) (unstale : Unstale dag block)
    (someBlue : dag.blueSet ≠ ∅)
    {colored : GhostDag}
    (outcome : Outcome search iteration (dag.insertBlock block) block colored) :
    colored.Descends := by
  obtain ⟨-, rfl⟩ | ⟨-, rfl⟩ | ⟨best, -, -, rfl⟩ | ⟨-, -, rfl⟩ :=
    unstale.outcome known new someBlue outcome
  · exact sorted.insertBlock known new
  · exact sorted.markBlue known new 1
  · exact (sorted.markBlue known new (best + 1)).insertOrdered search block.hash
  · exact (sorted.insertBlock known new).of_sublist (List.Sublist.refl _) fun _ _ => rfl

/-- Nothing but pruning takes blocks out of the ordering. -/
theorem Unstale.ordering (unstale : Unstale dag block) (someBlue : dag.blueSet ≠ ∅)
    (outcome : Outcome search iteration (dag.insertBlock block) block colored) :
    colored.ordering = dag.ordering ∨
      ∃ front back, dag.ordering = front ++ back ∧
        colored.ordering = front ++ block.hash :: back := by
  obtain ⟨-, rfl⟩ | ⟨-, rfl⟩ | ⟨best, -, -, rfl⟩ | ⟨-, -, rfl⟩ :=
    unstale.outcome known new someBlue outcome
  · exact .inl rfl
  · exact .inl rfl
  · exact .inr (search.insertRanked_eq_append (GhostDag.rankKey _) dag.ordering block.hash)
  · exact .inl rfl

theorem Unstale.ordering_ne_nil (unstale : Unstale dag block) (started : dag.ordering ≠ []) :
    (dag.addBlock search iteration block).ordering ≠ [] := by
  obtain ⟨colored, outcome, -, pruned, -⟩ := known.call search iteration new
  have someBlue := known.someBlue started
  rw [pruned.ordering, ne_eq, List.take_eq_nil_iff, not_or]
  refine ⟨by decide, ?_⟩
  rcases unstale.ordering known new someBlue outcome with same | ⟨front, back, -, grown⟩
  · rwa [same]
  · simp [grown]

theorem Descends.addBlock (sorted : dag.Descends) (unstale : Unstale dag block)
    (someBlue : dag.blueSet ≠ ∅) : (dag.addBlock search iteration block).Descends := by
  obtain ⟨colored, outcome, reached, pruned, -⟩ := known.call search iteration new
  exact (sorted.colored known new unstale someBlue outcome).pruned reached.distinct pruned

end Step

/-- What the call makes of the block it adds. -/
structure Colors (before : GhostDag) (block : Block) (after : GhostDag) : Prop where
  exactlyOne : Xor (block.hash ∈ after.blueSet) (block.hash ∈ after.redSet)
  /-- A block with a blue parent is blue and scores one more than its highest blue parent. -/
  blue : (∃ parent ∈ block.parents, parent ∈ before.blueSet) → block.hash ∈ after.blueSet ∧
    ∃ score ∈ after.blueScore.lookup block.hash,
      score.toNat =
        1 + Height.largest ((block.parents.filter (· ∈ before.blueSet)).map fun parent =>
        (before.scoreOf parent).toNat)

/-- A block that `add_block` gives a colour. -/
structure Colorable (dag : GhostDag) (block : Block) : Prop where
  genesisStored : dag.GenesisStored
  /-- The insertion does not push the genesis block out of the cache. -/
  room : dag.storage.database ≠ none ∨ dag.storage.hotBlocks.keys.card < 1000
  unstale : Unstale dag block
  fits : ∀ hash ∈ dag.blueSet, (dag.scoreOf hash).toNat + 1 < 2 ^ 64

instance (dag : GhostDag) : Decidable dag.GenesisStored :=
  decidable_of_iff ((dag.genesisHash.bind dag.storage.getBlock).isSome = true) isSome_iff_ne_none

instance (dag : GhostDag) (block : Block) : Decidable (Colorable dag block) :=
  -- through the blue set, not through all hashes
  have : Decidable (∀ hash ∈ dag.blueSet, (dag.scoreOf hash).toNat + 1 < 2 ^ 64) :=
    Finset.decidableDforallFinset
  have : Decidable (dag.storage.database ≠ none) :=
    decidable_of_iff (dag.storage.database.isSome = true) isSome_iff_ne_none
  decidable_of_iff _ ⟨fun ⟨first, second, third, fourth⟩ => ⟨first, second, third, fourth⟩,
    fun colorable => And.intro colorable.genesisStored (And.intro colorable.room
      (And.intro colorable.unstale colorable.fits))⟩

/-- The ordering lists every blue block and is cut to its length. -/
structure Tracked (dag : GhostDag) : Prop where
  members : ∀ hash ∈ dag.blueSet, hash ∈ dag.ordering
  sorted : dag.Descends
  short : dag.ordering.length ≤ 200

theorem maxScore_parentScores {dag : GhostDag} (scored : ∀ hash ∈ dag.blueSet, hash ∈ dag.blueScore)
    (isBest : maxScore (dag.parentScores parents) = some best) :
    best.toNat = Height.largest
      ((parents.filter (· ∈ dag.blueSet)).map fun parent => (dag.scoreOf parent).toNat) ∧
      ∃ parent ∈ parents, parent ∈ dag.blueSet ∧ dag.scoreOf parent = best := by
  have scores : dag.parentScores parents = (parents.filter (· ∈ dag.blueSet)).map dag.scoreOf := by
    rw [← filterMap_eq_map]
    apply filterMap_congr
    intro parent member
    have blue : parent ∈ dag.blueSet := by simpa using (mem_filter.mp member).2
    obtain ⟨score, own⟩ := mem_iff.mp (scored parent blue)
    simp [scoreOf, own]
  have largest := maxScore_toNat isBest
  rw [scores, List.map_map] at largest
  refine ⟨largest, ?_⟩
  have nonempty : (parents.filter (· ∈ dag.blueSet)).map (BitVec.toNat ∘ dag.scoreOf) ≠ [] := by
    intro empty
    rw [map_eq_nil_iff] at empty
    rw [scores, empty] at isBest
    cases isBest
  obtain ⟨parent, member, value⟩ := mem_map.mp (Height.largest_mem nonempty)
  obtain ⟨isParent, blue⟩ := mem_filter.mp member
  exact ⟨parent, isParent, by simpa using blue, BitVec.eq_of_toNat_eq (value.trans largest.symm)⟩

section Step

variable (known : Known blocks dag) (new : New blocks block) (tracked : dag.Tracked)

include known new

/-- A readable genesis block stays readable while the new block is inserted. -/
theorem Colorable.genesisStored_insertBlock (colorable : Colorable dag block) :
    (dag.insertBlock block).GenesisStored := by
  obtain ⟨first, found⟩ := ne_none_iff_exists'.mp colorable.genesisStored
  obtain ⟨genesis, named, stored⟩ := bind_eq_some_iff.mp found
  have stillNamed : (dag.insertBlock block).genesisHash = some genesis := by
    simp [insertBlock, named]
  have present := known.stored.find_of_getBlock stored
  have delivered : genesis ∈ hashes blocks := by
    rw [← find_isSome_iff, present]
    rfl
  rw [GenesisStored, stillNamed, bind_some]
  by_cases persistent : dag.storage.database = none
  · have room := colorable.room.resolve_left (fun disk => disk persistent)
    have cached : genesis ∈ dag.storage.hotBlocks := by
      rw [← lookup_isSome]
      unfold DagStorage.getBlock at stored
      cases hot : dag.storage.hotBlocks.lookup genesis with
      | none => simp [hot, persistent] at stored
      | some other => rfl
    obtain ⟨other, hot⟩ := mem_iff.mp (hot_insertBlock_of_room known.stored new.fresh room cached)
    simp [DagStorage.getBlock, hot]
  · rw [(stores_insertBlock known.stored new.fresh).getBlock_of_database
      (mt (database_insertBlock known.stored new.fresh).mp persistent),
        find_append_of_known delivered, present]
    exact some_ne_none first

include tracked

/-- The new block comes ahead of the parent that it has its score from, so pruning spares it. -/
theorem Tracked.spared (search : BinarySearch) (blue : parent ∈ dag.blueSet)
    (level : dag.scoreOf parent = best) (fits : best.toNat + 1 < 2 ^ 64) :
    block.hash ∈ (((dag.insertBlock block).markBlue block.hash (best + 1)).insertOrdered search
      block.hash).ordering.take (100 + 100) := by
  have sorted := (tracked.sorted.markBlue known new (best + 1)).insertOrdered search block.hash
  have placed := tracked.members parent blue
  obtain ⟨front, back, split, inserted⟩ := search.insertRanked_eq_append
    ((dag.insertBlock block).markBlue block.hash (best + 1)).rankKey dag.ordering block.hash
  have ordering : (((dag.insertBlock block).markBlue block.hash (best + 1)).insertOrdered
      search block.hash).ordering = front ++ block.hash :: back := inserted
  have different : parent ≠ block.hash := fun same => new.fresh (same ▸ known.blue parent blue)
  have behind : parent ∈ back := by
    rw [split, mem_append] at placed
    refine placed.resolve_left fun ahead => ?_
    rw [Descends, rankKey_insertOrdered, ordering] at sorted
    have higher := (pairwise_append.mp sorted).2.2 parent ahead block.hash mem_cons_self
    rw [rankKey_markBlue_of_ne _ different, rankKey_insertBlock_of_ne _ different, rankKey, rankKey,
      Prod.Lex.toLex_le_toLex, scoreOf_markBlue_self, level, Word.toNat_add_one fits] at higher
    omega
  have length := tracked.short
  rw [split, length_append] at length
  have nonempty := length_pos_of_mem behind
  rw [ordering, take_append, mem_append]
  right
  obtain ⟨room, isRoom⟩ := Nat.exists_eq_add_of_lt (show front.length < 100 + 100 by omega)
  rw [isRoom, show front.length + room + 1 - front.length = room + 1 by omega]
  exact mem_cons_self

theorem Tracked.addBlock (colorable : Colorable dag block) (someBlue : dag.blueSet ≠ ∅)
    (hasParent : block.parents ≠ []) :
    (dag.addBlock search iteration block).Tracked ∧
      Colors dag block (dag.addBlock search iteration block) := by
  obtain ⟨colored, outcome, reached, pruned, -⟩ := known.call search iteration new
  have sorted := tracked.sorted.colored known new colorable.unstale someBlue outcome
  have uncolored := known.uncolored new.fresh
  -- what the colouring adds to the blue set it also puts into the ordering
  have settle : (∀ hash ∈ colored.blueSet, hash ∈ colored.ordering) →
      (dag.addBlock search iteration block).Tracked := by
    intro members
    refine ⟨?_, sorted.pruned reached.distinct pruned, ?_⟩
    · intro hash member
      obtain ⟨blue, stays⟩ := (pruned.blue hash).mp member
      have placed := members hash blue
      rw [← take_append_drop (100 + 100) colored.ordering, mem_append] at placed
      rw [pruned.ordering]
      exact placed.resolve_right stays
    · rw [pruned.ordering]
      exact (length_take_le _ _).trans (by decide)
  obtain ⟨lost, -⟩ | ⟨root, -⟩ | ⟨best, someParent, isBest, rfl⟩ | ⟨-, noneBlue, rfl⟩ :=
    colorable.unstale.outcome known new someBlue outcome
  · exact absurd (colorable.genesisStored_insertBlock known new) lost
  · exact absurd root hasParent
  · obtain ⟨largest, parent, isParent, blue, level⟩ := maxScore_parentScores known.scored isBest
    have fits : best.toNat + 1 < 2 ^ 64 := level ▸ colorable.fits parent blue
    have spared :=
      unpruned_of_mem_take reached.distinct (tracked.spared known new search blue level fits)
    have nowBlue : block.hash ∈ (dag.addBlock search iteration block).blueSet :=
      (pruned.blue _).mpr ⟨Finset.mem_insert_self _ _, spared⟩
    have notRed : block.hash ∉ (dag.addBlock search iteration block).redSet := fun red =>
      uncolored.notRed ((pruned.red _).mp red).1
    refine ⟨settle ?_, .inl ⟨nowBlue, notRed⟩, fun _ => ⟨nowBlue, best + 1, ?_, ?_⟩⟩
    · intro hash member
      refine (search.insertRanked_perm (rankKey _) _ _).mem_iff.mpr (mem_cons.mpr ?_)
      exact (Finset.mem_insert.mp member).imp_right (tracked.members hash)
    · rw [pruned.scores, if_neg spared]
      simp [insertOrdered, markBlue]
    · rw [← largest, Word.toNat_add_one fits, Nat.add_comm]
  · have unplaced : block.hash ∉ dag.ordering :=
      fun placed => uncolored.notBlue (known.ordered _ placed)
    have stays : block.hash ∉ ((dag.insertBlock block).markRed block.hash).pruned 100 := fun late =>
      unplaced (mem_of_mem_drop late)
    have nowRed : block.hash ∈ (dag.addBlock search iteration block).redSet :=
      (pruned.red _).mpr ⟨Finset.mem_insert_self _ _, stays⟩
    have notBlue : block.hash ∉ (dag.addBlock search iteration block).blueSet := fun blue =>
      uncolored.notBlue ((pruned.blue _).mp blue).1
    refine ⟨settle tracked.members, .inr ⟨nowRed, notBlue⟩, fun someParent => ?_⟩
    obtain ⟨parent, isParent, blue⟩ := someParent
    exact absurd blue (noneBlue parent isParent)

end Step

section Run

variable (search : BinarySearch) (iterations : Hash → SetIteration Hash)

/-- The first block of a delivery with parents first is the genesis block. -/
theorem tracked_first_call {block : Block} (order : ParentsFirst [block]) :
    (call search iterations block (new database)).ordering = [block.hash] ∧
      (call search iterations block (new database)).Tracked ∧
      Colors (new database) block (call search iterations block (new database)) := by
  have delivered : Delivered search [block] (call search iterations block (new database)) :=
    (Delivered.new search database).addBlock order (by simp) (by simp [placed, hashes])
  have blue : (call search iterations block (new database)).blueSet = {block.hash} := by
    simp [delivered.colored.blue, hashes]
  have ordering : (call search iterations block (new database)).ordering = [block.hash] := by
    rw [delivered.ordering]
    exact perm_singleton.mp (search.insertAll_perm _ _)
  refine ⟨ordering,
    ⟨by simp [blue, ordering], ?_, by simp [ordering]⟩, .inl ⟨by simp [blue], ?_⟩, ?_⟩
  · rw [Descends, ordering]
    exact pairwise_singleton _ _
  · simp [delivered.colored.red]
  · rintro ⟨parent, -, member⟩
    exact absurd member (Finset.notMem_empty parent)

/-- The state after a part of a delivery: fresh, or with a sorted ordering of all blue blocks. -/
structure Underway (database : Option DagDatabase) (blocks : List Block) (dag : GhostDag) :
    Prop where
  known : Known blocks dag
  fresh : blocks = [] → dag = GhostDag.new database
  tracked : blocks ≠ [] → dag.Tracked ∧ dag.ordering ≠ []

theorem Underway.call (order : ParentsFirst blocks)
    (single : SingleGenesis blocks) (split : blocks = front ++ block :: back)
    (underway : Underway database front dag) (colorable : dag.blueSet = ∅ ∨ Colorable dag block) :
    Underway database (front ++ [block]) (call search iterations block dag) ∧
      Colors dag block (call search iterations block dag) := by
  obtain ⟨frontOrder, new⟩ := new_of_parentsFirst order split
  have known := underway.known.addBlock search (iterations block.hash) new
  by_cases first : front = []
  · subst first
    rw [underway.fresh rfl] at known ⊢
    obtain ⟨ordering, tracked, colors⟩ := tracked_first_call search iterations frontOrder
    exact ⟨⟨known, by simp, fun _ => ⟨tracked, by simp [ordering]⟩⟩, colors⟩
  · obtain ⟨tracked, started⟩ := underway.tracked first
    have someBlue := underway.known.someBlue started
    have colorable := colorable.resolve_left someBlue
    have hasParent := hasParent_of_singleGenesis order split single first
    obtain ⟨after, colors⟩ := tracked.addBlock underway.known new colorable someBlue hasParent
    exact ⟨⟨known, by simp, fun _ =>
      ⟨after, colorable.unstale.ordering_ne_nil underway.known new started⟩⟩, colors⟩

/-- In every run with parents first and one genesis block, each call whose block is colourable
colours it. -/
theorem colors_of_run (empty : ∀ contents ∈ database, contents = .empty) {blocks : List Block}
    (order : ParentsFirst blocks) (single : SingleGenesis blocks)
    (colorable : ∀ entry ∈ Run.visited (call search iterations) (new database) blocks,
      entry.1.blueSet = ∅ ∨ Colorable entry.1 entry.2) :
    ∀ entry ∈ Run.visited (call search iterations) (new database) blocks,
      Colors entry.1 entry.2 (call search iterations entry.2 entry.1) := by
  intro entry visited
  obtain ⟨front, back, split, state⟩ := Run.exists_split_of_mem_visited visited
  have underway := Run.invariant_of_prefixes (Underway database)
    (fun dag block => dag.blueSet = ∅ ∨ Colorable dag block)
    ⟨.new empty, fun _ => rfl, fun absurdity => absurd rfl absurdity⟩
    (fun front block back split condition underway =>
      (underway.call search iterations order single split condition).1) colorable front _ split
  rw [← state] at underway
  exact (underway.call search iterations order single split (colorable entry visited)).2

end Run

/-- A fork in memory is coloured from beginning to end. -/
theorem fork_colors : ParentsFirst (fork 1600000010 1600000011) ∧
      ∀ entry ∈ Run.visited (call standard numericIterations) (GhostDag.new none)
        (fork 1600000010 1600000011),
        Colors entry.1 entry.2 (call standard numericIterations entry.2 entry.1) := by
  have order : ParentsFirst (fork 1600000010 1600000011) := by decide +kernel
  exact ⟨order, colors_of_run standard numericIterations (by simp) order (by decide +kernel)
    (by decide +kernel)⟩

section Lost

/-- Once the genesis block has left a memory-only DAG, new blocks stay without a colour. -/
theorem Known.uncolored_of_lost (known : Known blocks dag) (new : New blocks block)
    (memoryOnly : dag.storage.database = none) (someBlue : dag.blueSet ≠ ∅)
    (named : dag.genesisHash ≠ none)
    (lost : ¬dag.GenesisStored) :
    block.hash ∉ (dag.addBlock search iteration block).blueSet ∧
      block.hash ∉ (dag.addBlock search iteration block).redSet := by
  obtain ⟨colored, outcome, -, pruned, -⟩ := known.call search iteration new
  obtain ⟨genesis, isGenesis⟩ := ne_none_iff_exists'.mp named
  have stillLost : ¬(dag.insertBlock block).GenesisStored := by
    have stillNamed : (dag.insertBlock block).genesisHash = some genesis := by
      simp [GhostDag.insertBlock, isGenesis]
    have noDisk := (database_insertBlock known.stored new.fresh).mpr memoryOnly
    rw [GenesisStored, stillNamed, bind_some, not_not, DagStorage.getBlock, noDisk]
    rw [GenesisStored, isGenesis, bind_some, DagStorage.getBlock] at lost
    cases hot : (dag.insertBlock block).storage.hotBlocks.lookup genesis with
    | none => rfl
    | some first =>
      have present := hot_of_hot_insertBlock known.stored new.fresh (mem_iff.mpr ⟨first, hot⟩)
      rcases present with same | old
      · exact absurd (known.genesis_mem isGenesis) (same ▸ new.fresh)
      · obtain ⟨other, cached⟩ := mem_iff.mp old
        simp [cached] at lost
  have uncolored := known.uncolored new.fresh
  have unchanged : colored = dag.insertBlock block := by
    cases outcome with
    | full nothingBlue => exact absurd nothingBlue someBlue
    | skipped => rfl
    | rebuilt _ kept | adopted _ kept | root _ kept | blue kept | red _ kept =>
      exact absurd kept stillLost
  subst unchanged
  exact ⟨fun blue => uncolored.notBlue ((pruned.blue _).mp blue).1,
    fun red => uncolored.notRed ((pruned.red _).mp red).1⟩

end Lost

section Long

variable (order : ParentsFirst (genesis :: later))

include order

theorem depth_genesis_lt (member : block ∈ genesis :: later) (hasParent : block.parents ≠ []) :
    depth (genesis :: later) genesis.hash < depth (genesis :: later) block.hash := by
  have positive : ∀ hash ∈ hashes (genesis :: later), 1 ≤ depth (genesis :: later) hash := by
    intro hash known
    rw [depth_eq order known, Height.fromParents]
    omega
  have distinct := nodup_hashes order
  have root := genesis_parents order
  have shallow : depth (genesis :: later) genesis.hash = 1 := by
    rw [depth_eq order (by simp [hashes]), Height.fromParents,
      parentsOf_of_mem distinct (by simp), root]
    rfl
  obtain ⟨parent, others, shape⟩ := exists_cons_of_ne_nil hasParent
  have hashed : block.hash ∈ hashes (genesis :: later) := mem_map_of_mem member
  have isParent : parent ∈ parentsOf (genesis :: later) block.hash := by
    rw [parentsOf_of_mem distinct member, shape]
    exact mem_cons_self
  have lower := depth_parent_lt order hashed isParent
  have bound := positive parent (parentsOf_mem order hashed isParent)
  omega

/-- The first block to fall out of the ordering is the genesis block. -/
theorem pruned_genesis (delivered : Delivered search (genesis :: later) dag)
    (long : dag.ordering.length = 201) : dag.pruned 100 = [genesis.hash] := by
  have sorted := search.descending_insertAll (rank (genesis :: later)) (placed (genesis :: later))
  have perm := search.insertAll_perm (rank (genesis :: later)) (placed (genesis :: later))
  rw [← delivered.ordering] at sorted perm
  obtain ⟨last, isLast⟩ : ∃ last, dag.ordering.drop (100 + 100) = [last] := by
    apply List.length_eq_one_iff.mp
    rw [List.length_drop, long]
  have split := List.take_append_drop (100 + 100) dag.ordering
  rw [isLast] at split
  rw [pruned, isLast]
  have first : genesis.hash ∈ dag.ordering := perm.mem_iff.mpr (by simp [placed, hashes])
  have lastPlaced : last ∈ placed (genesis :: later) := perm.mem_iff.mp (by rw [← split]; simp)
  rw [← split, List.mem_append, List.mem_singleton] at first
  rcases first with ahead | same
  · -- the last entry ranks no higher than the genesis block
    rw [← split] at sorted
    have lower :=
      (List.pairwise_append.mp sorted).2.2 genesis.hash ahead last (List.mem_singleton_self _)
    rw [rank, rank, Prod.Lex.toLex_le_toLex] at lower
    simp only [placed, hashes, List.take_succ_cons, List.take_zero, List.drop_succ_cons,
      List.drop_zero,
      List.map_append, List.map_cons, List.map_nil,
        List.mem_append, List.mem_singleton] at lastPlaced
    rcases lastPlaced with same | deeper
    · rw [same]
    · obtain ⟨block, kept, rfl⟩ := List.mem_map.mp deeper
      obtain ⟨member, hasParent⟩ := List.mem_filter.mp kept
      have higher :=
        depth_genesis_lt order (List.mem_cons_of_mem _ member) (by simpa using hasParent)
      omega
  · rw [same]

end Long

section Memory

variable (search : BinarySearch) (iterations : Hash → SetIteration Hash)

theorem known_deliver (empty : ∀ contents ∈ database, contents = .empty)
    (order : ParentsFirst blocks) : Known blocks (deliver search iterations blocks (new database)) ∧
      ((deliver search iterations blocks (new database)).storage.database = none ↔
        database = none) := by
  induction blocks using List.reverseRecOn with
  | nil => exact ⟨.new empty, Iff.rfl⟩
  | append_singleton front last ih =>
    obtain ⟨frontOrder, fresh, closed⟩ := parentsFirst_append_singleton.mp order
    obtain ⟨known, disk⟩ := ih frontOrder
    have new : New front last := ⟨fresh, fun own => fresh (closed _ own)⟩
    rw [deliver_append_singleton]
    exact ⟨known.addBlock search _ new, (known.database_addBlock search _ new).trans disk⟩

/-- The state right after the genesis block has been pruned. -/
structure GenesisDropped (genesis : Hash) (dag : GhostDag) : Prop where
  named : dag.genesisHash = some genesis
  uncached : genesis ∉ dag.storage.hotBlocks
  uncolored : genesis ∉ dag.blueSet
  full : dag.ordering.length = 200

/-- A delivery drops its genesis block as soon as 201 blocks are placed. -/
theorem genesisDropped_deliver (empty : ∀ contents ∈ database, contents = .empty)
    (order : ParentsFirst (genesis :: later ++ [block]))
    (few : (genesis :: later ++ [block]).length ≤ 1000)
    (before : (placed (genesis :: later)).length = 200)
    (after : (placed (genesis :: later ++ [block])).length = 201) :
    GenesisDropped genesis.hash
      (deliver search iterations (genesis :: later ++ [block]) (new database)) := by
  obtain ⟨frontOrder, fresh, closed⟩ := parentsFirst_append_singleton.mp order
  obtain ⟨known, -⟩ := known_deliver search iterations empty frontOrder
  have delivered := deliver_spec_of_placed search iterations database frontOrder
    (by rw [length_append] at few; omega) before.le
  rw [deliver_append_singleton]
  generalize deliver search iterations (genesis :: later) (new database) = dag at known delivered ⊢
  have colored := @Delivered.colorNew search (iterations block.hash) _ _ _ order few delivered
  rw [← colorNew] at colored
  have call : dag.addBlock search (iterations block.hash) block = _ :=
    addBlock_eq colored.colored.stored.interval
  rw [call]
  generalize (dag.insertBlock block).colorNew search (iterations block.hash) block.hash =
    result at colored
  have long : result.ordering.length = 201 := by
    rw [colored.ordering, (search.insertAll_perm _ _).length_eq, after]
  have dropped := pruned_genesis order colored long
  have pruned := pruned_pruneBelowCheckpoint result 100
  refine ⟨?_, ?_, ?_, ?_⟩
  · rw [countCheckpoint_eq]
    exact pruned.genesisHash.trans (by simp [colored.colored.genesis])
  · rw [← lookup_eq_none, hotBlocks_settle, dropped]
    simp
  · rw [countCheckpoint_eq]
    intro blue
    have stays := ((pruned.blue _).mp blue).2
    simp [dropped] at stays
  · rw [countCheckpoint_eq]
    rw [pruned.ordering, length_take, long]
    decide

end Memory

/-- One block on top of the other, above `roots` parentless ones. -/
def chainBlock (roots position : Nat) : Block :=
  plainBlock (BitVec.ofNat 256 (position + 1))
    (if position < roots then [] else [BitVec.ofNat 256 position])
    (BitVec.ofNat 64 position) (BitVec.ofNat 64 (1600000000 + 10 * position))

def chain (roots length : Nat) : List Block :=
  (range length).map (chainBlock roots)

theorem chain_succ (roots length : Nat) :
    chain roots (length + 1) = chain roots length ++ [chainBlock roots length] := by
  simp [chain, List.range_succ]

theorem chain_succ' (roots length : Nat) :
    chain roots (length + 1) = chainBlock roots 0 :: (range length).map fun position =>
      chainBlock roots (position + 1) := by
  simp [chain, range_succ_eq_map]

theorem parentless_chainBlock : (chainBlock roots position).parents = [] ↔ position < roots := by
  by_cases isRoot : position < roots <;> simp [chainBlock, plainBlock, isRoot]

theorem mem_hashes_chain :
    hash ∈ hashes (chain roots length) ↔
      ∃ position < length, hash = BitVec.ofNat 256 (position + 1) := by
  simp [hashes, chain, chainBlock, plainBlock, eq_comm]

theorem parentsFirst_chain {roots : Nat} (positive : 0 < roots) {length : Nat}
    (fits : length < 2 ^ 256) : ParentsFirst (chain roots length) := by
  induction length with
  | zero => exact trivial
  | succ length ih =>
    rw [chain_succ, parentsFirst_append_singleton]
    refine ⟨ih (by omega), ?_, ?_⟩
    · rw [mem_hashes_chain]
      rintro ⟨position, earlier, same⟩
      have value := congrArg BitVec.toNat same
      simp only [chainBlock, plainBlock, BitVec.toNat_ofNat] at value
      omega
    · intro parent isParent
      by_cases isRoot : length < roots
      · rw [parentless_chainBlock.mpr isRoot] at isParent
        cases isParent
      · have value : parent = BitVec.ofNat 256 length := by
          simpa [chainBlock, plainBlock, isRoot, Block.parents] using isParent
        exact mem_hashes_chain.mpr
          ⟨length - 1, by omega, by rw [value, Nat.sub_add_cancel (by omega)]⟩

theorem singleGenesis_chain (length : Nat) : SingleGenesis (chain 1 (length + 1)) := by
  refine ⟨chainBlock 1 0, by simp [chain_succ'], parentless_chainBlock.mpr (by decide), ?_⟩
  intro other member root
  obtain ⟨position, -, rfl⟩ := List.mem_map.mp member
  rw [parentless_chainBlock, Nat.lt_one_iff] at root
  rw [root]

theorem length_placed_chain (positive : 0 < roots) (length : Nat) :
    (placed (chain roots (length + 1))).length = 1 + (length + 1 - roots) := by
  induction length with
  | zero =>
    rw [Nat.sub_eq_zero_of_le positive]
    rfl
  | succ length ih =>
    rw [chain_succ, placed_append_singleton (by simp [chain_succ]), length_append]
    by_cases isRoot : length + 1 < roots
    · rw [if_pos (parentless_chainBlock.mpr isRoot), length_nil]
      omega
    · rw [if_neg (mt parentless_chainBlock.mp isRoot), length_singleton]
      omega

/-- A chain above its roots drops its first block when 200 blocks have been built on the roots. -/
theorem genesisDropped_chain (search : BinarySearch) (iterations : Hash → SetIteration Hash)
    (empty : ∀ contents ∈ database, contents = .empty) (positive : 0 < roots) (few : roots ≤ 800) :
    GenesisDropped 1
      (deliver search iterations (chain roots (roots + 200)) (GhostDag.new database)) := by
  have order := @parentsFirst_chain roots positive (roots + 200) (by omega)
  have before := length_placed_chain positive (roots + 198)
  have after := length_placed_chain positive (roots + 199)
  have length : (chain roots (roots + 200)).length = roots + 200 := by simp [chain]
  have split :
      chain roots (roots + 200) = chain roots (roots + 199) ++ [chainBlock roots (roots + 199)] :=
    chain_succ roots (roots + 199)
  rw [split] at order length after ⊢
  rw [chain_succ' roots (roots + 198)] at order length before after ⊢
  exact genesisDropped_deliver search iterations empty order (by omega) (by omega) (by omega)

/-- In memory the 202nd block of a chain gets no colour, since the genesis block is gone. -/
theorem long_chain_uncolored : ParentsFirst (chain 1 202) ∧ SingleGenesis (chain 1 202) ∧
      ¬Colors (deliver standard numericIterations (chain 1 201) (new none)) (chainBlock 1 201)
        (deliver standard numericIterations (chain 1 202) (new none)) := by
  have order := @parentsFirst_chain 1 (by decide) 202 (by decide)
  refine ⟨order, singleGenesis_chain 201, fun colors => ?_⟩
  have empty : ∀ contents ∈ (none : Option DagDatabase), contents = .empty := by simp
  have dropped := genesisDropped_chain standard numericIterations empty Nat.one_pos (by decide)
  have split : chain 1 202 = chain 1 201 ++ [chainBlock 1 201] := chain_succ 1 201
  rw [split] at order colors
  obtain ⟨front, new⟩ := new_of_parentsFirst order rfl
  obtain ⟨frontOrder, -, -⟩ := parentsFirst_append_singleton.mp front
  obtain ⟨known, memory⟩ := known_deliver standard numericIterations empty frontOrder
  rw [deliver_append_singleton] at colors
  generalize deliver standard numericIterations (chain 1 201) (GhostDag.new none) = dag
    at colors dropped known memory
  have started : dag.ordering ≠ [] := List.ne_nil_of_length_pos (by rw [dropped.full]; decide)
  have lost : ¬dag.GenesisStored := by
    rw [GenesisStored, dropped.named, bind_some, not_not, DagStorage.getBlock,
      lookup_eq_none.mpr dropped.uncached, memory.mpr rfl]
    rfl
  obtain ⟨notBlue, notRed⟩ := known.uncolored_of_lost new (memory.mpr rfl) (known.someBlue started)
    (by simp [dropped.named]) lost
  exact colors.1.elim (fun blue => notBlue blue.1) (fun red => notRed red.1)

end GhostDag

end IronDag
