import IronDag.Consensus.OrderingInvariant

namespace IronDag

open DagStorage

namespace DagStorage

theorem hotBlueSet_evict {count : ℕ} {storage : DagStorage} (none : storage.hotBlueSet = ∅) :
    (evict count order storage).hotBlueSet = ∅ := by
  fun_induction evict count order storage with
  | case1 | case2 => exact none
  | case3 _ hash _ _ _ ih => exact ih (by simp [none])
  | case4 _ _ _ _ _ ih => exact ih none

theorem hotBlueSet_foldl_finalize (dropped : List Hash) (storage : DagStorage)
    (none : storage.hotBlueSet = ∅) : (dropped.foldl finalize storage).hotBlueSet = ∅ := by
  induction dropped generalizing storage with
  | nil => exact none
  | cons hash rest ih => exact ih _ (by simp [finalize, none])

theorem hotBlueSet_addBlock (storage : DagStorage) (block : Block) (none : storage.hotBlueSet = ∅) :
    (storage.addBlock block).hotBlueSet = ∅ := by
  have stored : ((storage.cacheBlock block).persistBlock block).hotBlueSet = ∅ :=
    (congrArg hotBlueSet
      (withoutChildren_persistBlock (storage.cacheBlock block) block) :).trans none
  rw [addBlock_eq, pruneHotCache]
  split
  · exact stored
  · exact hotBlueSet_evict stored

/-- Age-based pruning keeps recent blocks and those of the hot blue set. -/
theorem hotBlocks_pruneRedBlocks (storage : DagStorage) (currentHeight finalityDepth : U64)
    (hash : Hash) : (storage.pruneRedBlocks currentHeight finalityDepth).hotBlocks.lookup hash =
      (storage.hotBlocks.lookup hash).filter fun block => currentHeight ≤ finalityDepth ∨
        hash ∈ storage.hotBlueSet ∨ currentHeight - finalityDepth ≤ block.header.blockNumber := by
  unfold pruneRedBlocks
  split
  · next young => cases storage.hotBlocks.lookup hash <;> simp [young, Option.filter]
  · next old =>
    simp only [← Finmap.lookup_isSome, Table.lookup_retain, old, false_or]
    cases storage.hotBlocks.lookup hash with
    | none => simp
    | some block =>
      by_cases blue : hash ∈ storage.hotBlueSet
      · simp [blue, Option.filter]
      · by_cases recent : currentHeight - finalityDepth ≤ block.header.blockNumber
        · simp [blue, recent, BitVec.not_lt.mpr recent, Option.filter]
        · simp [blue, recent, BitVec.not_le.mp recent, Option.filter]

end DagStorage

namespace GhostDag

variable {dag : GhostDag} {hash : Hash}

theorem storage_adoptHotParents : (dag.adoptHotParents hash).storage = dag.storage := by
  unfold adoptHotParents
  split
  · rfl
  · refine List.foldlRecOn
      (motive := fun state : GhostDag => state.storage = dag.storage) _ _ rfl ?_
    intro state same parent _
    split <;> exact same

theorem storage_classify {state : Recoloring} :
    (classify state hash).dag.storage = state.dag.storage := by
  unfold classify
  split
  · rfl
  · split
    · split <;> rfl
    · split <;> rfl

theorem storage_recompute {search : BinarySearch} {iteration : SetIteration Hash} :
    (dag.recompute search iteration hash).storage = dag.storage := by
  refine List.foldlRecOn (motive := fun state : GhostDag => state.storage = dag.storage) _ _ ?_
    (fun _ same _ _ => same)
  refine List.foldlRecOn (motive := fun state : Recoloring => state.dag.storage = dag.storage) _ _
    ?_ (fun _ same _ _ => same)
  generalize colored : List.foldl classify _ _ = state
  have same : state.dag.storage = dag.storage := by
    rw [← colored]
    refine List.foldlRecOn
      (motive := fun state : Recoloring => state.dag.storage = dag.storage) _ _ rfl ?_
    intro state same hash _
    exact storage_classify.trans same
  generalize (if hash ∈ state.dag.blueSet then none else _ : Option (Hash × List Hash)) = entry
  cases entry <;> exact same

theorem storage_colorNew (search : BinarySearch) (iteration : SetIteration Hash) (dag : GhostDag)
    (hash : Hash) : (dag.colorNew search iteration hash).storage = dag.storage := by
  unfold colorNew updateBlueSetIncremental
  split
  · exact storage_updateBlueSet
  · split
    · rfl
    · split
      · split
        · rw [storage_recompute, storage_adoptHotParents]
        · exact storage_updateBlueSet
      · exact storage_recompute

/-- Nothing ever enters the hot blue set. -/
theorem hotBlueSet_addBlock (search : BinarySearch) (iteration : SetIteration Hash) (dag : GhostDag)
    (block : Block)
    (none : dag.storage.hotBlueSet = ∅) :
    (dag.addBlock search iteration block).storage.hotBlueSet = ∅ := by
  have inserted : (dag.insertBlock block).storage.hotBlueSet = ∅ :=
    (congrArg hotBlueSet (dag.withoutChildren_insertBlock block) :).trans
      (dag.storage.hotBlueSet_addBlock block none)
  have colored := storage_colorNew search iteration (dag.insertBlock block) block.hash
  have pruned (confirmations : ℕ) (after : GhostDag) (none : after.storage.hotBlueSet = ∅) :
      (after.pruneBelowCheckpoint confirmations).storage.hotBlueSet = ∅ := by
    unfold pruneBelowCheckpoint
    dsimp only
    split
    · exact none
    · exact hotBlueSet_foldl_finalize _ _ none
  have counted (after : GhostDag) : after.countCheckpoint.storage.hotBlueSet =
      after.storage.hotBlueSet := by
    unfold countCheckpoint
    dsimp only
    split_ifs <;> rfl
  rw [← colored] at inserted
  change (if 0 <
    (colorNew search iteration
      (dag.insertBlock block) block.hash).storage.confirmationsForCheckpoint
    then _ else _ : GhostDag).countCheckpoint.storage.hotBlueSet = ∅
  rw [counted]
  split
  · exact pruned _ _ inserted
  · exact inserted

/-- The calls that the chain makes on its DAG. -/
inductive Maintenance
  | addBlock (block : Block)
  | pruneOldBlocks (currentHeight : U64)

def Maintenance.apply (search : BinarySearch) (iterations : Hash → SetIteration Hash) :
    Maintenance → GhostDag → GhostDag
  | addBlock block, dag => call search iterations block dag
  | pruneOldBlocks currentHeight, dag => dag.pruneOldBlocks currentHeight

/-- A DAG in memory only, or opened over a database. -/
def opened : Option DagDatabase → GhostDag
  | none => new none
  | some database => withDatabase database

/-- Pruning by age leaves the blue blocks in the hot storage, and reads of them as they were. -/
structure KeepsBlue (dag : GhostDag) (currentHeight : U64) : Prop where
  hot : ∀ hash ∈ dag.blueSet, hash ∈ dag.storage.hotBlocks →
    hash ∈ (dag.pruneOldBlocks currentHeight).storage.hotBlocks
  read : dag.storage.database = none → ∀ hash ∈ dag.ordering, hash ∈ dag.blueSet →
    (dag.pruneOldBlocks currentHeight).storage.getBlock hash = dag.storage.getBlock hash

/-- No blue block in the hot storage is more than a hundred blocks old. -/
def BlueRecent (dag : GhostDag) (currentHeight : U64) : Prop :=
  currentHeight ≤ 100 ∨ ∀ hash ∈ dag.blueSet, ∀ block,
    dag.storage.hotBlocks.lookup hash = some block → currentHeight - 100 ≤ block.header.blockNumber

theorem keepsBlue_iff (none : dag.storage.hotBlueSet = ∅) {currentHeight : U64} :
    dag.KeepsBlue currentHeight ↔ dag.BlueRecent currentHeight := by
  have lookup := dag.storage.hotBlocks_pruneRedBlocks currentHeight 100
  constructor
  · rintro ⟨hot, -⟩
    by_cases young : currentHeight ≤ 100
    · exact .inl young
    · refine .inr fun hash blue block found => ?_
      have kept := hot hash blue (Finmap.mem_of_lookup_eq_some found)
      rw [← Finmap.lookup_isSome, pruneOldBlocks, lookup, found] at kept
      have recent : currentHeight ≤ 100 ∨ currentHeight - 100 ≤ block.header.blockNumber := by
        simpa [none, Option.filter] using kept
      exact recent.resolve_left young
  · intro recent
    have same : ∀ hash ∈ dag.blueSet,
        (dag.pruneOldBlocks currentHeight).storage.hotBlocks.lookup hash =
          dag.storage.hotBlocks.lookup hash := by
      intro hash blue
      rw [pruneOldBlocks, lookup]
      cases found : dag.storage.hotBlocks.lookup hash with
      | none => rfl
      | some block =>
        have kept : currentHeight ≤ 100 ∨ hash ∈ dag.storage.hotBlueSet ∨
            currentHeight - 100 ≤ block.header.blockNumber :=
          recent.imp_right fun recent => .inr (recent hash blue block found)
        rw [Option.filter_some, if_pos (decide_eq_true kept)]
    refine ⟨?_, ?_⟩
    · intro hash blue cached
      rwa [← Finmap.lookup_isSome, same hash blue, Finmap.lookup_isSome]
    · intro _ hash _ blue
      have disk : (dag.pruneOldBlocks currentHeight).storage.database = dag.storage.database := by
        unfold pruneOldBlocks pruneRedBlocks
        split <;> rfl
      rw [getBlock, same hash blue, disk]
      rfl

/-- Along every run, pruning by age spares the blue blocks exactly where none of them is old. -/
theorem pruneOldBlocks_keepsBlue_iff {search : BinarySearch} {database : Option DagDatabase} :
    (∀ dag currentHeight, (dag, .pruneOldBlocks currentHeight) ∈
        Run.visited (Maintenance.apply search iterations) (opened database) calls →
          dag.KeepsBlue currentHeight) ↔
      ∀ dag currentHeight, (dag, .pruneOldBlocks currentHeight) ∈
        Run.visited (Maintenance.apply search iterations) (opened database) calls →
          dag.BlueRecent currentHeight := by
  have start : (opened database).storage.hotBlueSet = ∅ := by
    cases database with
    | none => rfl
    | some contents => rw [opened, storage_withDatabase]; rfl
  have empty : ∀ dag ∈ Run.states (Maintenance.apply search iterations) (opened database) calls,
      dag.storage.hotBlueSet = ∅ := by
    have step : ∀ (dag : GhostDag) (call : Maintenance), dag.storage.hotBlueSet = ∅ → True →
        (call.apply search iterations dag).storage.hotBlueSet = ∅ := by
      rintro dag (block | currentHeight) none -
      · exact hotBlueSet_addBlock search _ dag block none
      · unfold Maintenance.apply pruneOldBlocks pruneRedBlocks
        dsimp only
        split <;> exact none
    exact Run.invariant_states step start (fun _ _ => trivial)
  constructor
  · intro keeps dag currentHeight visited
    exact (keepsBlue_iff (empty dag (Run.mem_states_of_visited visited))).mp
      (keeps dag currentHeight visited)
  · intro recent dag currentHeight visited
    exact (keepsBlue_iff (empty dag (Run.mem_states_of_visited visited))).mpr
      (recent dag currentHeight visited)

/-- The genesis block is blue, and gone from memory at height 200. -/
theorem genesis_pruned :
    let dag := deliver BinarySearch.standard numericIterations [plainBlock 1 [] 0 1600000000]
      (opened none)
    dag.ordering = [1] ∧ 1 ∈ dag.blueSet ∧ 1 ∈ dag.storage.hotBlocks ∧
      (dag.pruneOldBlocks 200).storage.getBlock 1 = none ∧ ¬dag.KeepsBlue 200 := by
  intro dag
  have blue : 1 ∈ dag.blueSet := by decide +kernel
  have hot : 1 ∈ dag.storage.hotBlocks := by decide +kernel
  have gone : (dag.pruneOldBlocks 200).storage.getBlock 1 = none := by decide +kernel
  refine ⟨by decide +kernel, blue, hot, gone, fun keeps => ?_⟩
  have kept := keeps.hot 1 blue hot
  revert kept
  decide +kernel

end GhostDag

end IronDag
