import IronDag.Consensus.Children
import IronDag.Consensus.Progress

namespace IronDag

open Delivery GhostDag BinarySearch List

namespace GhostDag

/-- What was finalized earlier leaves a finalized block with at least its score. -/
def FinalityKept (earlier later : GhostDag) : Prop :=
  ∀ hash, earlier.getFinalizedBlockHash = some hash →
    ∃ final score, later.getFinalizedBlockHash = some final ∧
      later.blueScore.lookup final = some score ∧
      ∀ before ∈ earlier.blueScore.lookup hash, before.toNat ≤ score.toNat

theorem FinalityKept.trans (forth : FinalityKept first second)
    (further : FinalityKept second third) : FinalityKept first third := by
  intro hash finalized
  obtain ⟨middle, level, secondFinal, secondScore, raised⟩ := forth hash finalized
  obtain ⟨final, score, thirdFinal, thirdScore, raisedAgain⟩ := further middle secondFinal
  exact ⟨final, score, thirdFinal, thirdScore, fun before found =>
    (raised before found).trans (raisedAgain level secondScore)⟩

theorem FinalityKept.of_none (nothing : earlier.getFinalizedBlockHash = none) :
    FinalityKept earlier later := by
  intro hash finalized
  rw [nothing] at finalized
  cases finalized

section Step

variable (known : Known blocks dag) (new : New blocks block) (unstale : Unstale dag block)
  (someBlue : dag.blueSet ≠ ∅)

include known new unstale someBlue

/-- Colouring the new block does not change how the older ones compare. -/
theorem Unstale.rankKey (outcome : Outcome search iteration (dag.insertBlock block) block colored)
    {hash : Hash} (different : hash ≠ block.hash) : colored.rankKey hash = dag.rankKey hash := by
  rw [← rankKey_insertBlock_of_ne dag different]
  obtain ⟨-, rfl⟩ | ⟨-, rfl⟩ | ⟨best, -, -, rfl⟩ | ⟨-, -, rfl⟩ :=
    unstale.outcome known new someBlue outcome
  · rfl
  · exact rankKey_markBlue_of_ne _ different 1
  · exact rankKey_markBlue_of_ne _ different (best + 1)
  · rfl

theorem Descends.finalityKept (sorted : dag.Descends) :
    FinalityKept dag (dag.addBlock search iteration block) := by
  obtain ⟨colored, outcome, reached, pruned, -⟩ := known.call search iteration new
  have coloredSorted := sorted.colored known new unstale someBlue outcome
  have after := known.addBlock search iteration new
  intro hash finalized
  rw [getFinalizedBlockHash, finalityDepth, known.stored.interval] at finalized
  have older : hash ≠ block.hash := fun same =>
    new.fresh (same ▸ known.blue hash (known.ordered hash (mem_of_getElem? finalized)))
  have raised : ∃ final, colored.ordering[100]? = some final ∧
      colored.rankKey hash ≤ colored.rankKey final := by
    rcases unstale.ordering known new someBlue outcome with same | ⟨front, back, split, grown⟩
    · exact ⟨hash, same ▸ finalized, le_rfl⟩
    · rw [Descends, grown] at coloredSorted
      rw [grown]
      exact rank_le_of_insert colored.rankKey coloredSorted (split ▸ finalized)
  obtain ⟨final, atDepth, higher⟩ := raised
  have kept : (dag.addBlock search iteration block).ordering[100]? = some final := by
    rw [pruned.ordering, getElem?_take_of_lt (by decide)]
    exact atDepth
  have placed := mem_of_getElem? kept
  obtain ⟨score, scored⟩ := Finmap.mem_iff.mp (after.scored final (after.ordered final placed))
  refine ⟨final, score, ?_, scored, fun before found => ?_⟩
  · rw [getFinalizedBlockHash, finalityDepth, after.stored.interval]
    exact kept
  · rw [pruned.ordering] at placed
    rw [pruned.scores, if_neg (unpruned_of_mem_take reached.distinct placed)] at scored
    rw [unstale.rankKey known new someBlue outcome older, rankKey, rankKey,
      Prod.Lex.toLex_le_toLex, scoreOf, scoreOf, scored, Option.mem_def.mp found] at higher
    simp only [Option.getD_some] at higher
    omega

end Step

theorem checkpointStaleRebuilt_addBlock {search : BinarySearch} {iteration : SetIteration Hash}
    {blocks : List Block}
    {dag : GhostDag} {block : Block} (known : Known blocks dag) (new : New blocks block)
    (unstale : dag.blueSet = ∅ ∨ Unstale dag block) :
    (dag.addBlock search iteration block).checkpointStaleRebuilt = dag.checkpointStaleRebuilt := by
  obtain ⟨colored, outcome, -, pruned, -⟩ := known.call search iteration new
  rw [pruned.checkpointStaleRebuilt]
  by_cases nothingBlue : dag.blueSet = ∅
  · cases outcome with
    | full =>
      rcases updateBlueSet_cases with unchanged | ⟨genesis, reached, -, traversed, sorted⟩
      · rw [unchanged]
        rfl
      · rw [sorted]
        exact traversed.base.checkpointStaleRebuilt
    | skipped someBlue | rebuilt someBlue | adopted someBlue => exact absurd nothingBlue someBlue
    | root someBlue => exact absurd nothingBlue someBlue
    | blue _ someBlue =>
      obtain ⟨parent, -, blue⟩ := someBlue
      exact absurd nothingBlue (Finset.ne_empty_of_mem blue)
    | red someBlue => exact absurd nothingBlue someBlue
  · obtain ⟨-, rfl⟩ | ⟨-, rfl⟩ | ⟨best, -, -, rfl⟩ | ⟨-, -, rfl⟩ :=
      (unstale.resolve_left nothingBlue).outcome known new nothingBlue outcome
    all_goals rfl

section Run

variable (search : BinarySearch) (iterations : Hash → SetIteration Hash)

/-- The state after a part of a delivery: fresh, or with a sorted ordering. -/
structure Ascending (database : Option DagDatabase) (blocks : List Block) (dag : GhostDag) :
    Prop where
  known : Known blocks dag
  fresh : blocks = [] → dag = new database
  sorted : blocks ≠ [] → dag.Descends ∧ dag.ordering ≠ []
  unused : dag.checkpointStaleRebuilt = false

theorem Ascending.call (order : ParentsFirst blocks)
    (split : blocks = front ++ block :: back) (ascending : Ascending database front dag)
    (unstale : dag.blueSet = ∅ ∨ Unstale dag block) :
    Ascending database (front ++ [block]) (call search iterations block dag) ∧
      FinalityKept dag (call search iterations block dag) := by
  obtain ⟨frontOrder, new⟩ := new_of_parentsFirst order split
  have known := ascending.known.addBlock search (iterations block.hash) new
  have unused : (GhostDag.call search iterations block dag).checkpointStaleRebuilt = false :=
    (checkpointStaleRebuilt_addBlock ascending.known new unstale).trans ascending.unused
  by_cases first : front = []
  · subst first
    rw [ascending.fresh rfl] at known unused ⊢
    obtain ⟨ordering, tracked, -⟩ := @tracked_first_call search iterations database _ frontOrder
    exact ⟨⟨known, by simp, fun _ => ⟨tracked.sorted, by simp [ordering]⟩, unused⟩, .of_none rfl⟩
  · obtain ⟨sorted, started⟩ := ascending.sorted first
    have someBlue := ascending.known.someBlue started
    have unstale := unstale.resolve_left someBlue
    exact ⟨⟨known, by simp, fun _ => ⟨sorted.addBlock ascending.known new unstale someBlue,
      unstale.ordering_ne_nil ascending.known new started⟩, unused⟩,
      sorted.finalityKept ascending.known new unstale someBlue⟩

/-- The state after each part of a delivery whose calls all find a checkpoint that is not stale. -/
theorem ascending_of_run (empty : ∀ contents ∈ database, contents = .empty)
    (order : ParentsFirst blocks)
    (unstale : ∀ entry ∈ Run.visited (call search iterations) (new database) blocks,
      entry.1.blueSet = ∅ ∨ Unstale entry.1 entry.2) :
    ∀ front back, blocks = front ++ back →
      Ascending database front (Run.run (call search iterations) (new database) front) :=
  Run.invariant_of_prefixes (Ascending database)
    (fun dag block => dag.blueSet = ∅ ∨ Unstale dag block)
    ⟨.new empty, fun _ => rfl, fun absurdity => absurd rfl absurdity, rfl⟩
    (fun _ _ _ split condition ascending =>
      (ascending.call search iterations order split condition).1) unstale

/-- In every run with parents first in which no call rebuilds a stale checkpoint, finality never
rolls back. -/
theorem finalityKept_of_run (empty : ∀ contents ∈ database, contents = .empty) {blocks : List Block}
    (order : ParentsFirst blocks)
    (unstale : ∀ entry ∈ Run.visited (call search iterations) (new database) blocks,
      entry.1.blueSet = ∅ ∨ Unstale entry.1 entry.2) :
    (Run.states (call search iterations) (new database) blocks).Pairwise FinalityKept := by
  refine Run.pairwise_states FinalityKept.trans fun entry visited => ?_
  obtain ⟨front, back, split, state⟩ := Run.exists_split_of_mem_visited visited
  have ascending := ascending_of_run search iterations empty order unstale front _ split
  rw [← state] at ascending
  exact (ascending.call search iterations order split (unstale entry visited)).2

/-- As long as nothing is pruned every delivered block is blue, so no checkpoint looks stale. -/
theorem unstale_of_placed (order : ParentsFirst (start ++ [last]))
    (few : start.length ≤ 1000) (short : (placed start).length ≤ 200) :
    ∀ entry ∈ Run.visited (call search iterations) (new database) (start ++ [last]),
      entry.1.blueSet = ∅ ∨ Unstale entry.1 entry.2 := by
  intro entry visited
  obtain ⟨front, back, split, state⟩ := Run.exists_split_of_mem_visited visited
  have length := congrArg length split
  simp only [length_append, length_cons, length_nil] at length
  obtain ⟨rest, rfl⟩ : front <+: start :=
    prefix_of_prefix_length_le ⟨entry.2 :: back, split.symm⟩ ⟨[last], rfl⟩ (by omega)
  obtain ⟨frontOrder, -⟩ := new_of_parentsFirst order split
  obtain ⟨beforeOrder, -, closed⟩ := parentsFirst_append_singleton.mp frontOrder
  have delivered := deliver_spec_of_placed search iterations database beforeOrder
    (by omega) (length_placed_append_le.trans short)
  right
  cases parents : entry.2.parents with
  | nil => exact .inr (by simp [parents])
  | cons parent others =>
    have isParent : parent ∈ entry.2.parents := by simp [parents]
    refine .inl ⟨parent, isParent, ?_⟩
    rw [state]
    refine (congrArg (parent ∈ ·) delivered.colored.blue).mpr ?_
    exact mem_toFinset.mpr (closed parent isParent)

end Run

/-- A chain of 150 blocks, of which the last 49 have moved the finalized block. -/
theorem chain_finalityKept :
    (Run.states (call standard numericIterations) (new none) (chain 1 150)).Pairwise
      FinalityKept := by
  have order := @parentsFirst_chain 1 (by decide) 150 (by decide)
  refine finalityKept_of_run standard numericIterations (by simp) order ?_
  rw [chain_succ 1 149] at order ⊢
  exact unstale_of_placed _ _ order (by simp [chain])
    (by rw [length_placed_chain (by decide) 148]; decide)

theorem Known.genesisStored (known : Known blocks dag) {genesis : Hash}
    (named : dag.genesisHash = some genesis) (persistent : dag.storage.database ≠ none) :
    dag.GenesisStored := by
  rw [GenesisStored, named, Option.bind_some, known.stored.getBlock_of_database persistent,
    ← Option.isSome_iff_ne_none, find_isSome_iff]
  exact known.genesis_mem named

section Rebuild

variable {search : BinarySearch} {iteration : SetIteration Hash} {blocks : List Block}
  {dag : GhostDag} {block : Block}
  (known : Known blocks dag) (new : New blocks block) (someBlue : dag.blueSet ≠ ∅)
  (noneBlue : ∀ parent ∈ block.parents, parent ∉ dag.blueSet) (short : dag.ordering.length ≤ 200)

include known new someBlue noneBlue

include short in
/-- A block on a pruned parent is cached and not blue. -/
theorem Unstale.cached_red (unstale : Unstale dag block) (hasParent : block.parents ≠ []) :
    block.hash ∉ (dag.addBlock search iteration block).blueSet ∧
      block.hash ∈ (dag.addBlock search iteration block).storage.hotBlocks := by
  obtain ⟨colored, outcome, -, pruned, call⟩ := known.call search iteration new
  have uncolored := known.uncolored new.fresh
  have unchanged : colored.blueSet = dag.blueSet ∧ colored.ordering = dag.ordering := by
    obtain ⟨-, rfl⟩ | ⟨root, -⟩ | ⟨-, ⟨parent, isParent, blue⟩, -⟩ | ⟨-, -, rfl⟩ :=
      unstale.outcome known new someBlue outcome
    · exact ⟨rfl, rfl⟩
    · exact absurd root hasParent
    · exact absurd blue (noneBlue parent isParent)
    · exact ⟨rfl, rfl⟩
  constructor
  · intro blue
    have old := ((pruned.blue _).mp blue).1
    rw [unchanged.1] at old
    exact uncolored.notBlue old
  · rw [call, ← Finmap.lookup_isSome, hotBlocks_settle, GhostDag.pruned, unchanged.2,
      drop_eq_nil_of_le short, outcome.storage, hot_insertBlock known.stored new.fresh]
    rfl

/-- A rebuilt ordering has no blocks but those that lead back to the genesis block. -/
theorem length_ordering_rebuilt (named : dag.genesisHash = some genesis)
    (persistent : dag.storage.database ≠ none) (unused : dag.checkpointStaleRebuilt = false)
    (room : dag.storage.hotBlocks.keys.card < 1000)
    (someHot : ∃ parent ∈ block.parents, parent ∈ dag.storage.hotBlocks) {nodes : List Hash}
    (inside : genesis ∈ nodes)
    (stays : ∀ node ∈ nodes, ∀ child ∈ (dag.insertBlock block).storage.getChildren node,
      child ∈ nodes) :
    (dag.addBlock search iteration block).ordering.length ≤ nodes.length := by
  obtain ⟨colored, outcome, -, pruned, -⟩ := known.call search iteration new
  have stillNamed : (dag.insertBlock block).genesisHash = some genesis := by
    simp [insertBlock, named]
  have stored : (dag.insertBlock block).GenesisStored :=
    (known.insertBlock new.fresh).genesisStored stillNamed
    (mt (database_insertBlock known.stored new.fresh).mp persistent)
  obtain ⟨parent, isParent, hot⟩ := someHot
  have stillHot := hot_insertBlock_of_room known.stored new.fresh room hot
  rw [pruned.ordering]
  refine (length_take_le' _ _).trans ?_
  cases outcome with
  | full nothingBlue => exact absurd nothingBlue someBlue
  | skipped _ lost => exact absurd stored lost
  | adopted _ _ _ _ again => exact absurd (again.symm.trans unused) (by decide)
  | root _ _ root => exact absurd isParent (by simp [root])
  | blue _ someParent =>
    obtain ⟨other, isOther, blue⟩ := someParent
    exact absurd blue (noneBlue other isOther)
  | red _ _ _ _ noneHot => exact absurd stillHot (noneHot parent isParent)
  | rebuilt =>
    rcases updateBlueSet_cases with
      unchanged | ⟨first, reached, isFirst, traversed, sorted⟩
    · rw [unchanged]
      exact Nat.zero_le _
    · obtain rfl : first = genesis := Option.some.inj (isFirst.symm.trans stillNamed)
      obtain ⟨distinct, members⟩ := traversed.ordering iteration
      rw [sorted]
      refine (distinct.subperm fun hash placed => ?_).length_le
      exact Traversal.mem_of_mem_breadthFirst stays (by simpa using inside)
        (by simpa using inside) hash (traversed.blue hash ((members hash).mp placed))

end Rebuild

/-- Two blocks that lead back to a pruned genesis block make the DAG rebuild its ordering from it.
What does not lead back there is lost, and with it finality. -/
theorem unfinalized_of_detour (search : BinarySearch) (iterations : Hash → SetIteration Hash)
    (order : ParentsFirst (blocks ++ [first] ++ [second]))
    (known : Known blocks dag) (indexed : dag.storage.Indexed blocks)
    (persistent : dag.storage.database ≠ none)
    (dropped : GenesisDropped genesis dag) (unused : dag.checkpointStaleRebuilt = false)
    (few : (blocks ++ [first]).length < 1000) (onGenesis : first.parents = [genesis])
    (onFirst : second.parents = [first.hash])
    {nodes : List Hash} (inside : genesis ∈ nodes) (short : nodes.length ≤ 100)
    (stays : ∀ node ∈ nodes, ∀ child ∈ childrenOf (blocks ++ [first] ++ [second]) node,
      child ∈ nodes) :
    ((dag.addBlock search (iterations first.hash) first).addBlock search
      (iterations second.hash) second).getFinalizedBlockHash = none := by
  have later := childrenLater_of_parentsFirst order
  obtain ⟨firstOrder, secondNew⟩ := new_of_parentsFirst order rfl
  obtain ⟨-, firstNew⟩ := new_of_parentsFirst (parentsFirst_append_singleton.mp firstOrder).1 rfl
  have started : dag.ordering ≠ [] := ne_nil_of_length_pos (by rw [dropped.full]; decide)
  have someBlue := known.someBlue started
  -- the first block: on a parent that is neither blue nor cached
  have noneBlue : ∀ parent ∈ first.parents, parent ∉ dag.blueSet := by
    simpa [onGenesis] using dropped.uncolored
  have unstale : Unstale dag first := .inr (by simpa [onGenesis] using dropped.uncached)
  obtain ⟨red, cached⟩ := @Unstale.cached_red search (iterations first.hash) _ _ _ known firstNew
    someBlue noneBlue dropped.full.le unstale (by simp [onGenesis])
  have between := known.addBlock search (iterations first.hash) firstNew
  have betweenIndexed := indexed_addBlock known firstNew indexed
    (later.childless (append_assoc _ _ _)) search (iterations first.hash) (.inl persistent)
  have betweenPersistent :=
    mt (known.database_addBlock search (iterations first.hash) firstNew).mp persistent
  have betweenUnused :=
    (@checkpointStaleRebuilt_addBlock search (iterations first.hash) _ _ _ known firstNew
    (.inr unstale)).trans unused
  have betweenStarted :=
    @Unstale.ordering_ne_nil search (iterations first.hash) _ _ _ known firstNew unstale started
  have betweenNamed : (dag.addBlock search (iterations first.hash) first).genesisHash =
      some genesis := by
    have named := known.genesis.symm.trans dropped.named
    obtain ⟨root, isRoot, same⟩ := Option.map_eq_some_iff.mp named
    rw [between.genesis, firstRoot, find?_append, ← firstRoot, isRoot, ← same]
    rfl
  generalize dag.addBlock search (iterations first.hash) first = middle at *
  have after := between.addBlock search (iterations second.hash) secondNew
  -- the second block: on a parent that is cached, but not blue
  have length : (middle.addBlock search (iterations second.hash) second).ordering.length ≤
      nodes.length := by
    refine length_ordering_rebuilt between secondNew (between.someBlue betweenStarted)
      (by simpa [onFirst] using red)
      betweenNamed betweenPersistent betweenUnused (between.stored.card_hotBlocks_le.trans_lt few)
      ⟨first.hash, by simp [onFirst], cached⟩ inside ?_
    intro node member child isChild
    have exact := indexed_insertBlock between secondNew betweenIndexed (later.childless rfl)
      (.inl betweenPersistent)
    rw [(exact node).getChildren] at isChild
    exact stays node member child isChild
  rw [getFinalizedBlockHash, finalityDepth, after.stored.interval,
    if_pos (by decide), getElem?_eq_none_iff]
  omega

/-- A block on top of the first root of a chain, and a block on top of that one. -/
def detour (tip : Nat) : List Block :=
  [plainBlock (BitVec.ofNat 256 (tip + 1)) [1] 1 1600002030,
    plainBlock (BitVec.ofNat 256 (tip + 2)) [BitVec.ofNat 256 (tip + 1)] 2 1600002040]

theorem parentsFirst_chain_detour : ParentsFirst (chain 2 202 ++ detour 202) := by
  have order := @parentsFirst_chain 2 (by decide) 202 (by decide)
  have known : ∀ number < 2 ^ 256, BitVec.ofNat 256 number ∈ hashes (chain 2 202) →
      number ≤ 202 := by
    intro number small member
    obtain ⟨position, bound, same⟩ := mem_hashes_chain.mp member
    have value := congrArg BitVec.toNat same
    rw [BitVec.toNat_ofNat, BitVec.toNat_ofNat] at value
    omega
  have root : (1 : Hash) ∈ hashes (chain 2 202) := mem_hashes_chain.mpr ⟨0, by decide, rfl⟩
  rw [show chain 2 202 ++ detour 202 =
    chain 2 202 ++ [(detour 202)[0]] ++ [(detour 202)[1]] from rfl,
    parentsFirst_append_singleton, parentsFirst_append_singleton, hashes_append_singleton]
  refine ⟨⟨order, fun member => ?_, ?_⟩, fun member => ?_, ?_⟩
  · have bound := known 203 (by decide) member
    omega
  · simpa [detour, plainBlock, Block.parents] using root
  · rcases mem_append.mp member with old | same
    · have bound := known 204 (by decide) old
      omega
    · exact absurd (mem_singleton.mp same) (by decide)
  · simp [detour, plainBlock, Block.parents]

/-- Nothing but the detour leads back to the first root. -/
theorem childrenOf_chain_detour (inside : parent ∈ [1, 203, 204]) :
    ∀ child ∈ childrenOf (chain 2 202 ++ detour 202) parent,
      child ∈ ([1, 203, 204] : List Hash) := by
  intro child isChild
  obtain ⟨block, found, rfl⟩ := mem_map.mp isChild
  obtain ⟨member, isParent⟩ := mem_filter.mp found
  rcases mem_append.mp member with onChain | onDetour
  · obtain ⟨position, bound, rfl⟩ := mem_map.mp onChain
    rw [mem_range] at bound
    by_cases isRoot : position < 2
    · rw [parentless_chainBlock.mpr isRoot] at isParent
      cases isParent
    · have same : parent = BitVec.ofNat 256 position := by
        simpa [chainBlock, plainBlock, isRoot, Block.parents] using isParent
      have value := congrArg BitVec.toNat same
      rw [BitVec.toNat_ofNat] at value
      have outside : parent.toNat < 2 ∨ 202 < parent.toNat := by
        simp only [mem_cons, not_mem_nil, or_false] at inside
        rcases inside with rfl | rfl | rfl <;> decide
      omega
  · simp only [detour, mem_cons, not_mem_nil, or_false] at onDetour
    rcases onDetour with rfl | rfl <;> decide

/-- The state after a chain that has just lost its first root, over a database. -/
theorem chain_state (search : BinarySearch) (iterations : Hash → SetIteration Hash)
    (positive : 0 < roots) (few : roots ≤ 800) :
    ∃ dag, deliver search iterations (chain roots (roots + 200)) (new (some .empty)) = dag ∧
      Known (chain roots (roots + 200)) dag ∧ dag.storage.Indexed (chain roots (roots + 200)) ∧
      dag.storage.database ≠ none ∧ GenesisDropped 1 dag ∧ dag.checkpointStaleRebuilt = false := by
  have empty : ∀ contents ∈ some DagDatabase.empty, contents = .empty := by simp
  have order := @parentsFirst_chain roots positive (roots + 200) (by omega)
  have dropped := genesisDropped_chain search iterations empty positive few
  obtain ⟨known, indexed, disk⟩ := indexed_of_run search iterations empty (nodup_hashes order)
    (childrenLater_of_parentsFirst order) (.inl (by simp)) (chain roots (roots + 200)) []
      (append_nil _).symm
  have unstale : ∀ entry ∈ Run.visited (call search iterations) (new (some .empty))
      (chain roots (roots + 200)), entry.1.blueSet = ∅ ∨ Unstale entry.1 entry.2 := by
    have length : (chain roots (roots + 199)).length ≤ 1000 := by
      simp only [chain, length_map, length_range]
      omega
    have short : (placed (chain roots (roots + 199))).length ≤ 200 := by
      rw [length_placed_chain positive (roots + 198)]
      omega
    have split :
        chain roots (roots + 200) = chain roots (roots + 199) ++ [chainBlock roots (roots + 199)] :=
      chain_succ roots (roots + 199)
    rw [split] at order ⊢
    exact unstale_of_placed search iterations order length short
  have ascending := ascending_of_run search iterations empty order unstale
    (chain roots (roots + 200)) [] (append_nil _).symm
  exact ⟨_, rfl, known, indexed, mt disk.mp (by simp), dropped, ascending.unused⟩

/-- After 200 blocks on top of the second root, two blocks on top of the first root make the DAG
rebuild its ordering from that root, and nothing is finalized any more. -/
theorem detour_unfinalizes : ParentsFirst (chain 2 202 ++ detour 202) ∧
      (deliver standard numericIterations (chain 2 202) (new (some .empty))).getFinalizedBlockHash ≠
        none ∧
      (deliver standard numericIterations (chain 2 202 ++ detour 202)
        (new (some .empty))).getFinalizedBlockHash = none := by
  obtain ⟨dag, state, known, indexed, persistent, dropped, unused⟩ :=
    chain_state standard numericIterations Nat.two_pos (by decide)
  have shape : detour 202 = [(detour 202)[0]] ++ [(detour 202)[1]] := rfl
  have split :
      chain 2 202 ++ detour 202 = chain 2 202 ++ [(detour 202)[0]] ++ [(detour 202)[1]] := by
    rw [append_assoc, ← shape]
  have order := parentsFirst_chain_detour
  refine ⟨order, ?_, ?_⟩
  · rw [state, getFinalizedBlockHash, finalityDepth, known.stored.interval, ne_eq,
      getElem?_eq_none_iff, dropped.full]
    decide
  · rw [split] at order ⊢
    rw [deliver_append_singleton, deliver_append_singleton, state]
    refine unfinalized_of_detour _ _ order known indexed persistent dropped unused
      (by simp [chain]) rfl rfl (show 1 ∈ [1, 203, 204] by simp) (by decide) ?_
    exact fun node => childrenOf_chain_detour

end GhostDag

end IronDag
