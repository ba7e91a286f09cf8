import IronDag.Consensus.Cache
import IronDag.Consensus.Incremental

namespace IronDag

open Delivery Finset

namespace GhostDag

/-- The parts of the state that only `insertBlock` and pruning write. -/
structure SameBase (before after : GhostDag) : Prop where
  storage : after.storage = before.storage
  genesisHash : after.genesisHash = before.genesisHash
  blockTimestamps : after.blockTimestamps = before.blockTimestamps
  checkpointStaleRebuilt : after.checkpointStaleRebuilt = before.checkpointStaleRebuilt

theorem SameBase.refl (dag : GhostDag) : SameBase dag dag := ⟨rfl, rfl, rfl, rfl⟩

theorem SameBase.trans (left : SameBase first second) (right : SameBase second third) :
    SameBase first third :=
  ⟨right.storage.trans left.storage, right.genesisHash.trans left.genesisHash,
    right.blockTimestamps.trans left.blockTimestamps,
      right.checkpointStaleRebuilt.trans left.checkpointStaleRebuilt⟩

theorem sameBase_scoreChild (dag : GhostDag) (child : Hash) :
    SameBase dag (dag.scoreChild child) := by
  unfold scoreChild
  split
  · exact .refl dag
  · split <;> exact ⟨rfl, rfl, rfl, rfl⟩

/-- The hashes that a traversal from `genesis` reaches. -/
def reachedFrom (dag : GhostDag) (genesis : Hash) : List Hash :=
  Traversal.breadthFirst dag.storage.getChildren dag.traversalFuel [genesis] [genesis]

/-- The colours that a traversal from `genesis` leaves behind. -/
structure Traversed (dag : GhostDag) (genesis : Hash) (after : GhostDag) : Prop where
  base : SameBase dag after
  blue : ∀ hash ∈ after.blueSet, hash ∈ dag.reachedFrom genesis
  blueFound : ∀ hash ∈ after.blueSet, dag.storage.getBlock hash ≠ none
  redFound : ∀ hash ∈ after.redSet, dag.storage.getBlock hash ≠ none
  scores : ∀ hash, hash ∈ after.blueScore ↔ hash ∈ after.blueSet

theorem traversed_scoreChild (traversed : Traversed dag genesis after)
    (reached : child ∈ dag.reachedFrom genesis) :
    Traversed dag genesis (after.scoreChild child) := by
  have base := traversed.base.trans (sameBase_scoreChild after child)
  unfold scoreChild at base ⊢
  rw [traversed.base.storage] at base ⊢
  cases found : dag.storage.getBlock child with
  | none => exact traversed
  | some block =>
    have present : dag.storage.getBlock child ≠ none := by simp [found]
    simp only [found] at base ⊢
    cases scored : maxScore (after.parentScores block.header.parentHashes) with
    | none =>
      simp only [scored] at base
      refine ⟨base, traversed.blue, traversed.blueFound, ?_, traversed.scores⟩
      intro hash member
      rcases mem_insert.mp member with rfl | old
      · exact present
      · exact traversed.redFound hash old
    | some best =>
      simp only [scored] at base
      refine ⟨base, ?_, ?_, traversed.redFound, ?_⟩
      · intro hash member
        rcases mem_insert.mp member with rfl | old
        · exact reached
        · exact traversed.blue hash old
      · intro hash member
        rcases mem_insert.mp member with rfl | old
        · exact present
        · exact traversed.blueFound hash old
      · intro hash
        simp only [markBlue, Finmap.mem_insert, mem_insert, traversed.scores]

theorem traversed_foldl {reached : List Hash}
    (inside : ∀ hash ∈ reached, hash ∈ dag.reachedFrom genesis) :
    ∀ after, Traversed dag genesis after →
      Traversed dag genesis (reached.foldl scoreChild after) := by
  induction reached with
  | nil => intro after traversed; exact traversed
  | cons child rest ih =>
    intro after traversed
    exact ih (fun hash member => inside hash (List.mem_cons_of_mem _ member)) _
      (traversed_scoreChild traversed (inside child List.mem_cons_self))

variable {dag : GhostDag} {iteration : SetIteration Hash}

/-- `update_blue_set` does nothing without a genesis block, and otherwise sorts what it reaches. -/
theorem updateBlueSet_cases : dag.updateBlueSet iteration = dag ∨
      ∃ genesis after, dag.genesisHash = some genesis ∧ Traversed dag genesis after ∧
        dag.updateBlueSet iteration =
          { after with ordering := after.sortedOrdering iteration } := by
  unfold updateBlueSet
  cases named : dag.genesisHash with
  | none => exact .inl rfl
  | some genesis =>
    cases found : dag.storage.getBlock genesis with
    | none => exact .inl (by simp [found])
    | some block =>
      by_cases root : block.header.parentHashes = []
      · refine .inr ⟨genesis, _, rfl, ?_, by simp only [found]; rw [if_neg (by simpa using root)]⟩
        rw [Traversal.visitBreadthFirst_eq]
        refine traversed_foldl (fun hash member => List.mem_of_mem_drop member) _ ?_
        obtain ⟨later, order⟩ := Traversal.breadthFirst_eq_append dag.storage.getChildren
          dag.traversalFuel [genesis] [genesis]
        refine ⟨⟨rfl, rfl, rfl, rfl⟩, ?_, ?_, by simp [resetTo], ?_⟩
        · intro hash member
          rw [mem_singleton.mp member, reachedFrom, order]
          exact List.mem_append_left _ (List.mem_singleton_self _)
        · intro hash member
          rw [mem_singleton.mp member, found]
          exact Option.some_ne_none block
        · intro hash
          simp only [resetTo, Finmap.mem_insert, mem_singleton]
          exact or_iff_left Finmap.notMem_empty
      · exact .inl (by simp [found, root])

theorem mem_parentScores :
    score ∈ dag.parentScores parents ↔ ∃ parent ∈ parents, parent ∈ dag.blueSet ∧
      dag.blueScore.lookup parent = some score := by
  simp [parentScores, and_assoc]

section Tip

variable {search : BinarySearch} {iteration : SetIteration Hash} {dag : GhostDag} {hash : Hash}
  {block : Block} (found : dag.storage.getBlock hash = some block)
  (tip : dag.storage.getChildren hash = []) (irreflexive : hash ∉ block.parents)
  (uncolored : dag.Uncolored hash)

include found tip irreflexive uncolored

/-- A tip without a blue parent turns red, and the fallback leaves it red. -/
theorem recompute_tip_red (hasParent : block.parents ≠ [])
    (noneBlue : ∀ parent ∈ block.parents, parent ∉ dag.blueSet) :
    dag.recompute search iteration hash = dag.markRed hash := by
  have noScores : dag.parentScores block.parents = [] := by
    rw [List.eq_nil_iff_forall_not_mem]
    intro score member
    obtain ⟨parent, isParent, blue, -⟩ := mem_parentScores.mp member
    exact noneBlue parent isParent blue
  have classified : classify { dag, added := ∅, removed := ∅ } hash =
      { dag := dag.markRed hash, added := ∅, removed := ∅ } := by
    simp only [classify, found, noScores, maxScore, if_neg hasParent]
  have notAllBlue : (dag.markRed hash).blueParents hash = none := by
    obtain ⟨parent, rest, shape⟩ := List.exists_cons_of_ne_nil hasParent
    have first : parent ∉ dag.blueSet := noneBlue parent (by simp [shape])
    have stored : (dag.markRed hash).storage.getBlock hash = some block := found
    rw [blueParents, stored]
    simp [shape, markRed, first]
  have fallback : applyFallback iteration {hash} hash
      { dag := dag.markRed hash, added := ∅, removed := ∅ } =
      { dag := dag.markRed hash, added := ∅, removed := ∅ } := by
    simp [applyFallback, notAllBlue]
  have affected : dag.affectedBy hash = {hash} := by
    simp [affectedBy, tip]
  simp only [recompute, affected, clearAffected_uncolored uncolored, SetIteration.toList_singleton,
    topologicalOrder_tip found tip irreflexive, List.foldl_cons, List.foldl_nil,
      classified, fallback]
  simp [updateOrdering]

omit found tip irreflexive uncolored in
/-- A blue parent with a score gives the tip a score. -/
theorem exists_maxScore (scored : ∀ other ∈ dag.blueSet, other ∈ dag.blueScore)
    (isParent : parent ∈ parents) (blue : parent ∈ dag.blueSet) :
    ∃ best, maxScore (dag.parentScores parents) = some best := by
  obtain ⟨score, own⟩ := Finmap.mem_iff.mp (scored parent blue)
  have listed := mem_parentScores.mpr ⟨parent, isParent, blue, own⟩
  cases best : maxScore (dag.parentScores parents) with
  | none => exact absurd listed (by simp [maxScore_eq_none.mp best])
  | some value => exact ⟨value, rfl⟩

end Tip

/-- Cached parents were made blue ahead of the new block. -/
structure Adopted (dag : GhostDag) (parents : List Hash) (after : GhostDag) : Prop where
  base : SameBase dag after
  redSet : after.redSet = dag.redSet
  ordering : after.ordering = dag.ordering
  blue : ∀ hash, hash ∈ after.blueSet ↔ hash ∈ dag.blueSet ∨ hash ∈ parents ∧
    hash ∈ dag.storage.hotBlocks
  scores : ∀ hash ∈ after.blueScore, hash ∈ dag.blueScore ∨ hash ∈ parents ∧
    hash ∈ dag.storage.hotBlocks
  scored : (∀ hash ∈ dag.blueSet, hash ∈ dag.blueScore) → ∀ hash ∈ after.blueSet,
    hash ∈ after.blueScore

theorem adopted_adoptHotParents {hash : Hash}
    (found : dag.storage.getBlock hash = some block) :
    Adopted dag block.parents (dag.adoptHotParents hash) := by
  unfold adoptHotParents
  rw [found]
  show Adopted dag block.parents (block.parents.foldl _ dag)
  induction block.parents using List.reverseRecOn with
  | nil => exact ⟨.refl dag, rfl, rfl, by simp, by simp, fun scored => scored⟩
  | append_singleton front parent ih =>
    rw [List.foldl_append, List.foldl_cons, List.foldl_nil]
    generalize front.foldl _ dag = before at ih ⊢
    split
    · rename_i adopts
      obtain ⟨cached, notBlue⟩ := adopts
      rw [ih.base.storage] at cached
      refine ⟨⟨ih.base.storage, ih.base.genesisHash,
        ih.base.blockTimestamps, ih.base.checkpointStaleRebuilt⟩,
        ih.redSet, ih.ordering, ?_, ?_, ?_⟩
      · intro other
        simp only [mem_insert, ih.blue, List.mem_append, List.mem_singleton]
        constructor
        · rintro (rfl | old | ⟨isParent, hot⟩)
          · exact .inr ⟨.inr rfl, cached⟩
          · exact .inl old
          · exact .inr ⟨.inl isParent, hot⟩
        · rintro (old | ⟨isParent | rfl, hot⟩)
          · exact .inr (.inl old)
          · exact .inr (.inr ⟨isParent, hot⟩)
          · exact .inl rfl
      · intro other member
        have either : other = parent ∨ other ∈ before.blueScore := by
          revert member
          split
          · exact .inr
          · exact Finmap.mem_insert.mp
        rcases either with rfl | old
        · exact .inr ⟨by simp, cached⟩
        · exact (ih.scores other old).imp_right fun ⟨isParent, hot⟩ =>
            ⟨List.mem_append_left _ isParent, hot⟩
      · intro scored other member
        rcases mem_insert.mp member with rfl | old
        · split
          · assumption
          · exact Finmap.mem_insert.mpr (.inl rfl)
        · split
          · exact ih.scored scored other old
          · exact Finmap.mem_insert.mpr (.inr (ih.scored scored other old))
    · rename_i keeps
      refine ⟨ih.base, ih.redSet, ih.ordering, ?_, ?_, ih.scored⟩
      · intro other
        rw [ih.blue, List.mem_append, List.mem_singleton]
        refine ⟨fun either => either.imp_right fun ⟨isParent, hot⟩ => ⟨.inl isParent, hot⟩, ?_⟩
        rintro (old | ⟨isParent | rfl, hot⟩)
        · exact .inl old
        · exact .inr ⟨isParent, hot⟩
        · by_contra absent
          rw [← ih.blue] at absent
          exact keeps ⟨ih.base.storage ▸ hot, absent⟩
      · intro other member
        exact (ih.scores other member).imp_right fun ⟨isParent, hot⟩ =>
          ⟨List.mem_append_left _ isParent, hot⟩

/-- The colouring part of `add_block`, once the block is stored. -/
def colorNew (search : BinarySearch) (iteration : SetIteration Hash) (dag : GhostDag)
    (hash : Hash) : GhostDag :=
  if dag.blueSet = ∅ then dag.updateBlueSet iteration
  else dag.updateBlueSetIncremental search iteration hash

/-- The consensus state thrown away ahead of a rebuild. -/
def discardColors (dag : GhostDag) : GhostDag :=
  { dag with
    blueSet := ∅
    redSet := ∅
    blueScore := ∅
    ordering := []
    checkpointStaleRebuilt := true }

def GenesisStored (dag : GhostDag) : Prop :=
  dag.genesisHash.bind dag.storage.getBlock ≠ none

/-- Everything the colouring part of `add_block` can do with a new tip. -/
inductive Outcome (search : BinarySearch) (iteration : SetIteration Hash) (dag : GhostDag)
    (block : Block) : GhostDag → Prop where
  | full (nothingBlue : dag.blueSet = ∅) :
      Outcome search iteration dag block (dag.updateBlueSet iteration)
  | skipped (someBlue : dag.blueSet ≠ ∅) (lost : ¬dag.GenesisStored) :
      Outcome search iteration dag block dag
  | rebuilt (someBlue : dag.blueSet ≠ ∅) (kept : dag.GenesisStored)
      (noneBlue : ∀ parent ∈ block.parents, parent ∉ dag.blueSet)
      (someHot : ∃ parent ∈ block.parents, parent ∈ dag.storage.hotBlocks)
      (first : dag.checkpointStaleRebuilt = false) :
      Outcome search iteration dag block (dag.discardColors.updateBlueSet iteration)
  | adopted (someBlue : dag.blueSet ≠ ∅) (kept : dag.GenesisStored)
      (noneBlue : ∀ parent ∈ block.parents, parent ∉ dag.blueSet)
      (someHot : ∃ parent ∈ block.parents, parent ∈ dag.storage.hotBlocks)
      (again : dag.checkpointStaleRebuilt = true) {after : GhostDag}
      (adopted : Adopted dag block.parents after) {best : U64}
      (scored : maxScore (after.parentScores block.parents) = some best) :
      Outcome search iteration dag block
        ((after.markBlue block.hash (best + 1)).insertOrdered search block.hash)
  | root (someBlue : dag.blueSet ≠ ∅) (kept : dag.GenesisStored) (root : block.parents = []) :
      Outcome search iteration dag block (dag.markBlue block.hash 1)
  | blue (kept : dag.GenesisStored) (someBlue : ∃ parent ∈ block.parents, parent ∈ dag.blueSet)
      {best : U64} (scored : maxScore (dag.parentScores block.parents) = some best) :
      Outcome search iteration dag block
        ((dag.markBlue block.hash (best + 1)).insertOrdered search block.hash)
  | red (someBlue : dag.blueSet ≠ ∅) (kept : dag.GenesisStored) (hasParent : block.parents ≠ [])
      (noneBlue : ∀ parent ∈ block.parents, parent ∉ dag.blueSet)
      (noneHot : ∀ parent ∈ block.parents, parent ∉ dag.storage.hotBlocks) :
      Outcome search iteration dag block (dag.markRed block.hash)

theorem storage_updateBlueSet : (dag.updateBlueSet iteration).storage = dag.storage := by
  rcases updateBlueSet_cases with unchanged | ⟨genesis, reached, -, traversed, sorted⟩
  · rw [unchanged]
  · rw [sorted]
    exact traversed.base.storage

theorem Outcome.storage (outcome : Outcome search iteration dag block after) :
    after.storage = dag.storage := by
  cases outcome with
  | full => exact storage_updateBlueSet
  | rebuilt => exact storage_updateBlueSet
  | adopted _ _ _ _ _ adopted => exact adopted.base.storage
  | skipped | root | blue | red => rfl

theorem staleCheckpoint_iff {hash : Hash} (found : dag.storage.getBlock hash = some block) :
    dag.staleCheckpoint hash = true ↔
      (∃ parent ∈ block.parents, parent ∈ dag.storage.hotBlocks) ∧
        ∀ parent ∈ block.parents, parent ∉ dag.blueSet := by
  simp [staleCheckpoint, found]

theorem outcome_colorNew {search : BinarySearch} {block : Block}
    (found : dag.storage.getBlock block.hash = some block)
    (tip : dag.storage.getChildren block.hash = [])
    (irreflexive : block.hash ∉ block.parents) (uncolored : dag.Uncolored block.hash)
    (scored : ∀ hash ∈ dag.blueSet, hash ∈ dag.blueScore) :
    Outcome search iteration dag block (dag.colorNew search iteration block.hash) := by
  unfold colorNew
  by_cases nothingBlue : dag.blueSet = ∅
  · rw [if_pos nothingBlue]
    exact .full nothingBlue
  rw [if_neg nothingBlue]
  unfold updateBlueSetIncremental
  cases genesis : dag.genesisHash.bind dag.storage.getBlock with
  | none => exact .skipped nothingBlue (fun kept => kept genesis)
  | some first =>
    have kept : dag.GenesisStored := by simp [GenesisStored, genesis]
    by_cases stale : dag.staleCheckpoint block.hash = true
    · rw [if_pos stale]
      obtain ⟨someHot, noneBlue⟩ := (staleCheckpoint_iff found).mp stale
      by_cases again : dag.checkpointStaleRebuilt = true
      · rw [if_pos again]
        -- the adopted parents give the new block a score
        have adopted := adopted_adoptHotParents found
        have stillUncolored : (dag.adoptHotParents block.hash).Uncolored block.hash := by
          refine ⟨fun member => ?_, adopted.redSet ▸ uncolored.notRed, ?_⟩
          · exact ((adopted.blue _).mp member).elim uncolored.notBlue fun own => irreflexive own.1
          · rw [Finmap.lookup_eq_none]
            intro member
            refine (adopted.scores _ member).elim ?_ fun own => irreflexive own.1
            rw [← Finmap.lookup_isSome, uncolored.noScore]
            exact Bool.false_ne_true
        obtain ⟨parent, isParent, hot⟩ := someHot
        obtain ⟨best, isBest⟩ := exists_maxScore (adopted.scored scored) isParent
          ((adopted.blue parent).mpr (.inr ⟨isParent, hot⟩))
        rw [recompute_tip_scored (adopted.base.storage ▸ found)
          (adopted.base.storage ▸ tip) irreflexive stillUncolored isBest]
        exact .adopted nothingBlue kept noneBlue ⟨parent, isParent, hot⟩ again adopted isBest
      · rw [if_neg again]
        exact .rebuilt nothingBlue kept noneBlue someHot (by simpa using again)
    · rw [if_neg stale]
      by_cases root : block.parents = []
      · rw [recompute_tip_root found tip irreflexive uncolored root]
        exact .root nothingBlue kept root
      · by_cases someBlue : ∃ parent ∈ block.parents, parent ∈ dag.blueSet
        · obtain ⟨parent, isParent, blue⟩ := someBlue
          obtain ⟨best, isBest⟩ := exists_maxScore scored isParent blue
          rw [recompute_tip_scored found tip irreflexive uncolored isBest]
          exact .blue kept ⟨parent, isParent, blue⟩ isBest
        · have noneBlue : ∀ parent ∈ block.parents, parent ∉ dag.blueSet := by
            simpa using someBlue
          rw [recompute_tip_red found tip irreflexive uncolored root noneBlue]
          refine .red nothingBlue kept root noneBlue fun parent isParent hot => ?_
          exact stale ((staleCheckpoint_iff found).mpr ⟨⟨parent, isParent, hot⟩, noneBlue⟩)

end GhostDag

end IronDag
