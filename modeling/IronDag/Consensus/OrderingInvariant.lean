import IronDag.Consensus.Agreement
import IronDag.Consensus.Reachable
import IronDag.Lib.Run

namespace IronDag

open Delivery GhostDag BinarySearch
open List hiding after

namespace GhostDag

/-- One call of `add_block` as a step of a run. -/
def call (search : BinarySearch) (iterations : Hash → SetIteration Hash) (block : Block)
    (dag : GhostDag) : GhostDag :=
  dag.addBlock search (iterations block.hash) block

instance : DecidableRel EarlierFirst := fun _ _ =>
  inferInstanceAs (Decidable (_ ∨ _))

/-- The ordering lists the blue blocks once each, higher scores first, then earlier timestamps. -/
structure InOrder (blocks : List Block) (dag : GhostDag) : Prop where
  distinct : dag.ordering.Nodup
  members : ∀ hash, hash ∈ dag.ordering ↔ hash ∈ dag.blueSet
  sorted : dag.SortedBy (Delivery.timestampOf blocks) dag.ordering

/-- A block that `add_block` puts where it belongs. -/
structure Orderly (dag : GhostDag) (block : Block) : Prop where
  irreflexive : block.hash ∉ block.parents
  /-- Only the first blue block has no parents. -/
  hasParent : dag.blueSet ≠ ∅ → block.parents ≠ []
  /-- The session's one rebuild is not used up when a cached parent turns out not to be blue. -/
  unadopted : dag.checkpointStaleRebuilt = true → (∀ parent ∈ block.parents, parent ∉ dag.blueSet) →
    ∀ parent ∈ block.parents, parent ∉ dag.storage.hotBlocks
  /-- Blue blocks one above the highest blue parent carry the block's timestamp. -/
  simultaneous : ∀ best ∈ maxScore (dag.parentScores block.parents), ∀ other ∈ dag.blueSet,
    dag.scoreOf other = best + 1 → dag.blockTimestamps.lookup other = some block.header.timestamp

instance (dag : GhostDag) (block : Block) : Decidable (Orderly dag block) :=
  -- through the parents and the blue set, not through all hashes
  have : Decidable (∀ parent ∈ block.parents, parent ∉ dag.blueSet) := decidableBAll ..
  have : Decidable (∀ parent ∈ block.parents, parent ∉ dag.storage.hotBlocks) := decidableBAll ..
  have : Decidable (∀ best ∈ maxScore (dag.parentScores block.parents), ∀ other ∈ dag.blueSet,
      dag.scoreOf other = best + 1 →
        dag.blockTimestamps.lookup other = some block.header.timestamp) :=
    match maxScore (dag.parentScores block.parents) with
    | none => .isTrue (by simp)
    | some best =>
      have : Decidable (∀ other ∈ dag.blueSet, dag.scoreOf other = best + 1 →
          dag.blockTimestamps.lookup other = some block.header.timestamp) :=
            Finset.decidableDforallFinset
      decidable_of_iff (∀ other ∈ dag.blueSet, dag.scoreOf other = best + 1 →
        dag.blockTimestamps.lookup other = some block.header.timestamp) (by simp)
  decidable_of_iff _ ⟨fun ⟨first, second, third, fourth⟩ => ⟨first, second, third, fourth⟩,
    fun orderly => And.intro orderly.irreflexive (And.intro orderly.hasParent
      (And.intro orderly.unadopted orderly.simultaneous))⟩

section Step

theorem InOrder.of_empty (blocks : List Block) (nothingBlue : dag.blueSet = ∅)
    (unordered : dag.ordering = []) : InOrder blocks dag := by
  refine ⟨?_, ?_, ?_⟩
  · rw [unordered]
    exact nodup_nil
  · simp [nothingBlue, unordered]
  · rw [unordered]
    exact Pairwise.nil

/-- The full recomputation sorts what it reaches. -/
theorem InOrder.updateBlueSet (stores : dag.storage.Stores blocks) (before : InOrder blocks dag) :
    InOrder blocks (dag.updateBlueSet iteration) := by
  rcases updateBlueSet_cases with unchanged | ⟨genesis, after, -, traversed, sorted⟩
  · rw [unchanged]
    exact before
  · have stored : ∀ hash ∈ after.blueSet, ∃ block, after.storage.getBlock hash = some block ∧
        Delivery.timestampOf blocks hash = block.header.timestamp := by
      intro hash member
      obtain ⟨block, found⟩ := Option.ne_none_iff_exists'.mp (traversed.blueFound hash member)
      refine ⟨block, traversed.base.storage ▸ found, ?_⟩
      simp [Delivery.timestampOf, stores.find_of_getBlock found]
    obtain ⟨distinct, members⟩ := traversed.ordering iteration
    rw [sorted]
    exact ⟨distinct, members, (sortedOrdering_spec stored).2⟩

theorem scoreOf_markBlue_self {dag : GhostDag} {hash : Hash} {score : U64} :
    (dag.markBlue hash score).scoreOf hash = score := by
  simp [markBlue, scoreOf]

theorem scoreOf_markBlue_of_ne {dag : GhostDag} {hash other : Hash} (different : other ≠ hash)
    {score : U64} : (dag.markBlue hash score).scoreOf other = dag.scoreOf other := by
  simp [markBlue, scoreOf, different]

/-- Insertion of a new block whose score is shared by simultaneous blocks only. -/
theorem InOrder.insertOrdered (before : InOrder blocks dag) {hash : Hash}
    (unknown : hash ∉ dag.blueSet)
    (simultaneous : ∀ other ∈ dag.blueSet, dag.scoreOf other = score →
      dag.timestampOf other = dag.timestampOf hash ∧
        Delivery.timestampOf blocks other = Delivery.timestampOf blocks hash) :
    InOrder blocks ((dag.markBlue hash score).insertOrdered search hash) := by
  have unplaced : hash ∉ dag.ordering := fun placed => unknown ((before.members hash).mp placed)
  have otherScore : ∀ other ∈ dag.ordering, (dag.markBlue hash score).scoreOf other =
      dag.scoreOf other :=
    fun other placed => scoreOf_markBlue_of_ne (fun same : other = hash => unplaced (same ▸ placed))
  have perm := search.insertRanked_perm (dag.markBlue hash score).rankKey dag.ordering hash
  refine ⟨perm.nodup_iff.mpr (nodup_cons.mpr ⟨unplaced, before.distinct⟩), ?_, ?_⟩
  · intro other
    refine perm.mem_iff.trans ?_
    rw [mem_cons, before.members]
    exact Finset.mem_insert.symm
  · have marked : (dag.markBlue hash score).SortedBy (Delivery.timestampOf blocks) dag.ordering :=
      before.sorted.congr fun other placed => ⟨otherScore other placed, rfl⟩
    refine SortedBy.insertOrdered search marked fun probe placed level => ?_
    rw [otherScore probe placed, scoreOf_markBlue_self] at level
    exact simultaneous probe ((before.members probe).mp placed) level

theorem InOrder.append (before : InOrder blocks dag)
    (known : ∀ hash ∈ dag.ordering, hash ∈ hashes blocks)
    (more : List Block) : InOrder (blocks ++ more) dag where
  distinct := before.distinct
  members := before.members
  sorted := before.sorted.congr fun hash placed =>
    ⟨rfl, timestampOf_append_of_known more (known hash placed)⟩

theorem InOrder.pruned (before : InOrder blocks colored) (pruned : Pruned colored 100 after) :
    InOrder blocks after := by
  have split := take_append_drop (100 + 100) colored.ordering
  have distinct := before.distinct
  rw [← split] at distinct
  have kept : ∀ hash ∈ colored.ordering.take (100 + 100), hash ∉ colored.pruned 100 :=
    fun hash early late =>
    disjoint_of_nodup_append distinct early late
  refine ⟨?_, ?_, ?_⟩
  · rw [pruned.ordering]
    exact before.distinct.sublist (take_sublist _ _)
  · intro hash
    rw [pruned.ordering, pruned.blue, ← before.members]
    refine ⟨fun early => ⟨mem_of_mem_take early, kept hash early⟩, fun ⟨placed, stays⟩ => ?_⟩
    rw [← split, mem_append] at placed
    exact placed.resolve_right stays
  · rw [pruned.ordering]
    have short :
        colored.SortedBy (Delivery.timestampOf blocks) (colored.ordering.take (100 + 100)) :=
      Pairwise.sublist (take_sublist _ _) before.sorted
    refine short.congr fun hash early => ⟨?_, rfl⟩
    rw [scoreOf, scoreOf, pruned.scores, if_neg (kept hash early)]

theorem InOrder.addBlock (known : Known blocks dag) (fresh : block.hash ∉ hashes blocks)
    (orderly : Orderly dag block) (before : InOrder blocks dag) :
    InOrder (blocks ++ [block]) (dag.addBlock search iteration block) := by
  obtain ⟨colored, outcome, -, pruned, -⟩ :=
    known.call search iteration ⟨fresh, orderly.irreflexive⟩
  refine InOrder.pruned ?_ pruned
  have inserted := known.insertBlock fresh
  have extended : InOrder (blocks ++ [block]) (dag.insertBlock block) := by
    have appended :=
      before.append (fun hash placed => known.blue hash (known.ordered hash placed)) [block]
    exact ⟨appended.distinct, appended.members, appended.sorted⟩
  cases outcome with
  | full => exact extended.updateBlueSet inserted.stored
  | skipped => exact extended
  | rebuilt => exact (InOrder.of_empty _ rfl rfl).updateBlueSet inserted.discardColors.stored
  | adopted someBlue kept noneBlue someHot again adopted scored =>
    obtain ⟨parent, isParent, hot⟩ := someHot
    have cached := (hot_of_hot_insertBlock known.stored fresh hot).resolve_left
      fun same => orderly.irreflexive (same ▸ isParent)
    exact absurd cached (orderly.unadopted again noneBlue parent isParent)
  | root someBlue kept root => exact absurd root (orderly.hasParent someBlue)
  | blue kept someBlue scored =>
    refine extended.insertOrdered (known.uncolored fresh).notBlue fun other blue level => ?_
    have cached := orderly.simultaneous _ scored other blue level
    obtain ⟨delivered, time⟩ := known.times other (Finmap.mem_iff.mpr ⟨_, cached⟩)
    have different : other ≠ block.hash := fun same => fresh (same ▸ delivered)
    have ownTime : dag.timestampOf other = block.header.timestamp := by
      rw [timestampOf, cached]
      rfl
    constructor
    · simp only [timestampOf, insertBlock, Table.lookup_write, if_neg different, if_true, cached]
    · rw [timestampOf_append_of_known _ delivered, timestampOf_append_self fresh, ← time, ownTime]
  | red => exact ⟨extended.distinct, extended.members, extended.sorted⟩

end Step

/-- In every run of orderly blocks with distinct hashes, over a fresh DAG, every state is in
order. -/
theorem inOrder_of_run (search : BinarySearch) (iterations : Hash → SetIteration Hash)
    {database : Option DagDatabase}
    (empty : ∀ contents ∈ database, contents = .empty) {blocks : List Block}
    (distinct : (hashes blocks).Nodup)
    (orderly : ∀ entry ∈ Run.visited (call search iterations) (new database) blocks,
      Orderly entry.1 entry.2) :
    ∀ dag ∈ Run.states (call search iterations) (new database) blocks, InOrder blocks dag := by
  intro dag reached
  obtain ⟨front, back, split, rfl⟩ := Run.mem_states_iff.mp reached
  have invariant := Run.invariant_of_prefixes (fun front dag => Known front dag ∧
    InOrder front dag) Orderly ⟨.new empty, .of_empty _ rfl rfl⟩ ?_ orderly front back split
  · obtain ⟨known, ordered⟩ := invariant
    rw [split]
    exact ordered.append (fun hash placed => known.blue hash (known.ordered hash placed)) back
  · intro front block back split orderly ⟨known, ordered⟩
    have fresh := fresh_of_split distinct split
    exact ⟨known.addBlock search _ ⟨fresh, orderly.irreflexive⟩,
      ordered.addBlock known fresh orderly⟩

/-- Two children of one block with one timestamp stay in order. -/
theorem simultaneous_fork_inOrder : (hashes (fork 1600000010 1600000010)).Nodup ∧
      ∀ dag ∈ Run.states (call standard numericIterations) (new none) (fork 1600000010 1600000010),
        InOrder (fork 1600000010 1600000010) dag := by
  have distinct : (hashes (fork 1600000010 1600000010)).Nodup := by decide +kernel
  exact ⟨distinct, inOrder_of_run standard numericIterations (by simp) distinct (by decide +kernel)⟩

/-- The later one of two children with one score is put first. -/
theorem fork_out_of_order : (hashes (fork 1600000010 1600000011)).Nodup ∧
      (deliver standard numericIterations (fork 1600000010 1600000011) (new none)).ordering =
        [3, 2, 1] ∧
      ¬InOrder (fork 1600000010 1600000011)
        (deliver standard numericIterations (fork 1600000010 1600000011) (new none)) := by
  have ordering : (deliver standard numericIterations (fork 1600000010 1600000011)
      (new none)).ordering = [3, 2, 1] := by
    decide +kernel
  refine ⟨by decide +kernel, ordering, fun inOrder => ?_⟩
  have sorted := inOrder.sorted
  rw [ordering] at sorted
  have first := (pairwise_cons.mp sorted).1 2 (by simp)
  revert first
  decide +kernel

end GhostDag

end IronDag
