import IronDag.Consensus.Coloring

namespace IronDag

open Delivery Finmap
open List hiding after

namespace Delivery

def firstRoot (blocks : List Block) : Option Block :=
  blocks.find? fun block => decide (block.parents = [])

/-- A new block with a hash of its own that does not name itself as a parent. -/
structure New (blocks : List Block) (block : Block) : Prop where
  fresh : block.hash ∉ hashes blocks
  irreflexive : block.hash ∉ block.parents

theorem fresh_of_split (distinct : (hashes blocks).Nodup)
    (split : blocks = front ++ block :: back) : block.hash ∉ hashes front := by
  rw [split, hashes, map_append] at distinct
  exact fun earlier => disjoint_of_nodup_append distinct earlier mem_cons_self

theorem find_append_of_known {hash : Hash} (known : hash ∈ hashes blocks) :
    find (blocks ++ more) hash = find blocks hash := by
  obtain ⟨block, found⟩ := Option.isSome_iff_exists.mp (find_isSome_iff.mpr known)
  unfold find at found ⊢
  rw [find?_append, found]
  rfl

theorem timestampOf_append_of_known (more : List Block) {hash : Hash}
    (known : hash ∈ hashes blocks) : timestampOf (blocks ++ more) hash =
      timestampOf blocks hash := by
  rw [timestampOf, timestampOf, find_append_of_known known]

theorem timestampOf_append_self (fresh : block.hash ∉ hashes blocks) :
    timestampOf (blocks ++ [block]) block.hash = block.header.timestamp := by
  simp [timestampOf, find_append_singleton fresh]

theorem known_append {block : Block} {hash : Hash} (known : hash ∈ hashes blocks) :
    hash ∈ hashes (blocks ++ [block]) := by
  rw [hashes_append_singleton]
  exact mem_append_left _ known

end Delivery

namespace GhostDag

/-- What every state knows: nothing but delivered blocks, and their own data. -/
structure Known (blocks : List Block) (dag : GhostDag) : Prop where
  stored : dag.storage.Stores blocks
  genesis : dag.genesisHash = (firstRoot blocks).map Block.hash
  blue : ∀ hash ∈ dag.blueSet, hash ∈ hashes blocks
  red : ∀ hash ∈ dag.redSet, hash ∈ hashes blocks
  scores : ∀ hash ∈ dag.blueScore, hash ∈ hashes blocks
  scored : ∀ hash ∈ dag.blueSet, hash ∈ dag.blueScore
  times : ∀ hash ∈ dag.blockTimestamps, hash ∈ hashes blocks ∧
    dag.timestampOf hash = Delivery.timestampOf blocks hash
  distinct : dag.ordering.Nodup
  ordered : ∀ hash ∈ dag.ordering, hash ∈ dag.blueSet

theorem Known.new (fresh : ∀ contents ∈ database, contents = .empty) :
    Known [] (GhostDag.new database) where
  stored := .new fresh
  genesis := rfl
  blue := by simp [GhostDag.new]
  red := by simp [GhostDag.new]
  scores := fun _ member => absurd member notMem_empty
  scored := by simp [GhostDag.new]
  times := fun _ member => absurd member notMem_empty
  distinct := nodup_nil
  ordered := by simp [GhostDag.new]

theorem Known.genesis_mem (known : Known blocks dag) {genesis : Hash}
    (named : dag.genesisHash = some genesis) : genesis ∈ hashes blocks := by
  rw [known.genesis] at named
  obtain ⟨block, found, rfl⟩ := Option.map_eq_some_iff.mp named
  exact mem_map_of_mem (mem_of_find?_eq_some found)

section Insert

variable {block : Block} (known : Known blocks dag) (fresh : block.hash ∉ hashes blocks)

include known fresh

theorem Known.uncolored : (dag.insertBlock block).Uncolored block.hash where
  notBlue := fun member => fresh (known.blue _ member)
  notRed := fun member => fresh (known.red _ member)
  noScore := lookup_eq_none.mpr fun member => fresh (known.scores _ member)

theorem Known.insertBlock : Known (blocks ++ [block]) (dag.insertBlock block) where
  stored := stores_insertBlock known.stored fresh
  genesis := by
    have first : firstRoot (blocks ++ [block]) =
        (firstRoot blocks).or (if block.parents = [] then some block else none) := by
      unfold firstRoot
      by_cases root : block.parents = [] <;> simp
    rw [first]
    unfold GhostDag.insertBlock
    cases root : firstRoot blocks with
    | none => by_cases own : block.parents = [] <;> simp [known.genesis, root]
    | some first => simp [known.genesis, root]
  blue := fun hash member => known_append (known.blue hash member)
  red := fun hash member => known_append (known.red hash member)
  scores := fun hash member => known_append (known.scores hash member)
  scored := known.scored
  times := by
    intro hash member
    unfold GhostDag.insertBlock GhostDag.timestampOf
    rw [Table.lookup_write]
    by_cases same : hash = block.hash
    · subst same
      rw [if_pos rfl, timestampOf_append_self fresh]
      exact ⟨by simp [hashes], rfl⟩
    · have old : hash ∈ dag.blockTimestamps := (mem_insert.mp member).resolve_left same
      obtain ⟨delivered, time⟩ := known.times hash old
      rw [if_neg same, timestampOf_append_of_known _ delivered]
      exact ⟨known_append delivered, time⟩
  distinct := known.distinct
  ordered := known.ordered

end Insert

section Outcome

variable {block : Block}

theorem Traversed.ordering (iteration : SetIteration Hash)
    (traversed : Traversed dag genesis after) :
    (after.sortedOrdering iteration).Nodup ∧ ∀ hash, hash ∈ after.sortedOrdering iteration ↔
      hash ∈ after.blueSet := by
  have stored : ∀ hash ∈ after.blueSet, ∃ found, after.storage.getBlock hash = some found ∧
      ((after.storage.getBlock hash).elim 0 fun found => found.header.timestamp) =
        found.header.timestamp := by
    intro hash member
    obtain ⟨found, present⟩ := Option.ne_none_iff_exists'.mp (traversed.blueFound hash member)
    rw [traversed.base.storage, present]
    exact ⟨found, rfl, rfl⟩
  obtain ⟨perm, -⟩ := sortedOrdering_spec stored
  refine ⟨perm.nodup_iff.mpr (iteration.nodup _), fun hash => ?_⟩
  rw [perm.mem_iff, iteration.mem_toList]

variable (known : Known blocks dag)

include known

theorem Known.updateBlueSet : Known blocks (dag.updateBlueSet iteration) := by
  rcases updateBlueSet_cases with unchanged | ⟨genesis, after, -, traversed, sorted⟩
  · rw [unchanged]
    exact known
  · obtain ⟨distinct, members⟩ := traversed.ordering iteration
    have delivered : ∀ hash, dag.storage.getBlock hash ≠ none → hash ∈ hashes blocks := by
      intro hash present
      obtain ⟨found, isFound⟩ := Option.ne_none_iff_exists'.mp present
      rw [← find_isSome_iff, known.stored.find_of_getBlock isFound]
      rfl
    rw [sorted]
    refine ⟨traversed.base.storage ▸ known.stored, traversed.base.genesisHash.trans known.genesis,
      fun hash member => delivered hash (traversed.blueFound hash member),
      fun hash member => delivered hash (traversed.redFound hash member),
      fun hash member =>
        delivered hash (traversed.blueFound hash ((traversed.scores hash).mp member)),
      fun hash member => (traversed.scores hash).mpr member, ?_, distinct,
        fun hash => (members hash).mp⟩
    intro hash member
    rw [traversed.base.blockTimestamps] at member ⊢
    exact known.times hash member

theorem Known.discardColors : Known blocks dag.discardColors where
  stored := known.stored
  genesis := known.genesis
  blue := by simp [GhostDag.discardColors]
  red := by simp [GhostDag.discardColors]
  scores := fun _ member => absurd member notMem_empty
  scored := by simp [GhostDag.discardColors]
  times := known.times
  distinct := nodup_nil
  ordered := by simp [GhostDag.discardColors]

theorem Known.adopted (adopted : Adopted dag block.parents after) : Known blocks after where
  stored := adopted.base.storage ▸ known.stored
  genesis := adopted.base.genesisHash.trans known.genesis
  blue := fun hash member => ((adopted.blue hash).mp member).elim (known.blue hash) fun hot =>
    known.stored.known_of_hot hot.2
  red := adopted.redSet ▸ known.red
  scores := fun hash member => (adopted.scores hash member).elim (known.scores hash) fun hot =>
    known.stored.known_of_hot hot.2
  scored := adopted.scored known.scored
  times := by
    unfold timestampOf
    rw [adopted.base.blockTimestamps]
    exact known.times
  distinct := adopted.ordering ▸ known.distinct
  ordered := fun hash member =>
    (adopted.blue hash).mpr (.inl (known.ordered hash (adopted.ordering ▸ member)))

theorem Known.markBlue {hash : Hash} (delivered : hash ∈ hashes blocks) (score : U64) :
    Known blocks (dag.markBlue hash score) where
  stored := known.stored
  genesis := known.genesis
  blue := fun other member =>
    (Finset.mem_insert.mp member).elim (fun same => same ▸ delivered) (known.blue other)
  red := known.red
  scores := fun other member =>
    (mem_insert.mp member).elim (fun same => same ▸ delivered) (known.scores other)
  scored := fun other member =>
    mem_insert.mpr ((Finset.mem_insert.mp member).imp_right (known.scored other))
  times := known.times
  distinct := known.distinct
  ordered := fun other member => Finset.mem_insert_of_mem (known.ordered other member)

theorem Known.insertOrdered {hash : Hash} (blue : hash ∈ dag.blueSet)
    (unplaced : hash ∉ dag.ordering) : Known blocks (dag.insertOrdered search hash) := by
  have perm := search.insertRanked_perm dag.rankKey dag.ordering hash
  refine ⟨known.stored, known.genesis, known.blue, known.red, known.scores, known.scored,
    known.times, ?_, ?_⟩
  · exact perm.nodup_iff.mpr (nodup_cons.mpr ⟨unplaced, known.distinct⟩)
  · intro other member
    rcases mem_cons.mp (perm.mem_iff.mp member) with rfl | old
    · exact blue
    · exact known.ordered other old

theorem Known.markRed {hash : Hash} (delivered : hash ∈ hashes blocks) :
    Known blocks (dag.markRed hash) where
  stored := known.stored
  genesis := known.genesis
  blue := known.blue
  red := fun other member =>
    (Finset.mem_insert.mp member).elim (fun same => same ▸ delivered) (known.red other)
  scores := known.scores
  scored := known.scored
  times := known.times
  distinct := known.distinct
  ordered := known.ordered

theorem Known.outcome (delivered : block.hash ∈ hashes blocks)
    (uncolored : dag.Uncolored block.hash) (outcome : Outcome search iteration dag block after) :
    Known blocks after := by
  cases outcome with
  | full => exact known.updateBlueSet
  | skipped => exact known
  | rebuilt => exact known.discardColors.updateBlueSet
  | adopted someBlue kept noneBlue someHot again adopted scored =>
    exact ((known.adopted adopted).markBlue delivered _).insertOrdered (Finset.mem_insert_self _ _)
      fun placed => uncolored.notBlue (known.ordered _ (adopted.ordering ▸ placed))
  | root => exact known.markBlue delivered 1
  | blue kept someBlue scored =>
    exact (known.markBlue delivered _).insertOrdered (Finset.mem_insert_self _ _)
      fun placed => uncolored.notBlue (known.ordered _ placed)
  | red => exact known.markRed delivered

end Outcome

section Settle

variable {dag : GhostDag}

def pruned (dag : GhostDag) (confirmations : Nat) : List Hash :=
  dag.ordering.drop (confirmations + confirmations)

/-- Pruning in one form for long and short orderings. -/
structure Pruned (dag : GhostDag) (confirmations : Nat) (after : GhostDag) : Prop where
  genesisHash : after.genesisHash = dag.genesisHash
  checkpointStaleRebuilt : after.checkpointStaleRebuilt = dag.checkpointStaleRebuilt
  ordering : after.ordering = dag.ordering.take (confirmations + confirmations)
  blue : ∀ hash, hash ∈ after.blueSet ↔ hash ∈ dag.blueSet ∧ hash ∉ dag.pruned confirmations
  red : ∀ hash, hash ∈ after.redSet ↔ hash ∈ dag.redSet ∧ hash ∉ dag.pruned confirmations
  scores : ∀ hash, after.blueScore.lookup hash =
    if hash ∈ dag.pruned confirmations then none else dag.blueScore.lookup hash
  times : ∀ hash, after.blockTimestamps.lookup hash =
    if hash ∈ dag.pruned confirmations then none else dag.blockTimestamps.lookup hash

theorem pruned_pruneBelowCheckpoint (dag : GhostDag) (confirmations : Nat) :
    Pruned dag confirmations (dag.pruneBelowCheckpoint confirmations) := by
  unfold pruneBelowCheckpoint
  dsimp only
  split
  · rename_i short
    have nothing : dag.pruned confirmations = [] := drop_eq_nil_of_le short
    exact ⟨rfl, rfl, (take_of_length_le short).symm, by simp [nothing], by simp [nothing],
      by simp [nothing], by simp [nothing]⟩
  · refine ⟨rfl, rfl, rfl, by simp [pruned], by simp [pruned], ?_, ?_⟩
    · intro hash
      rw [Table.lookup_retain_key]
      by_cases gone : hash ∈ dag.ordering.drop (confirmations + confirmations) <;>
        simp [pruned, gone]
    · intro hash
      rw [Table.lookup_retain_key]
      by_cases gone : hash ∈ dag.ordering.drop (confirmations + confirmations) <;>
        simp [pruned, gone]

theorem stores_pruneBelowCheckpoint (stores : dag.storage.Stores blocks) (confirmations : Nat) :
    (dag.pruneBelowCheckpoint confirmations).storage.Stores blocks := by
  unfold pruneBelowCheckpoint
  dsimp only
  split
  · exact stores
  · exact stores.pruneBlocksByHash _

theorem stores_countCheckpoint (stores : dag.storage.Stores blocks) :
    dag.countCheckpoint.storage.Stores blocks := by
  obtain ⟨cache, interval, hot, distinct, queued, disk⟩ := stores
  unfold countCheckpoint
  dsimp only
  split_ifs
  · exact ⟨cache, interval, hot, distinct, queued, disk⟩
  · refine ⟨cache, interval, hot, distinct, queued, ?_⟩
    intro contents present hash
    obtain ⟨database, before, rfl⟩ := Option.map_eq_some_iff.mp present
    exact disk database before hash
  · exact ⟨cache, interval, hot, distinct, queued, disk⟩

theorem hotBlocks_settle {dag : GhostDag} {hash : Hash} :
    (dag.pruneBelowCheckpoint confirmations).countCheckpoint.storage.hotBlocks.lookup hash =
      if hash ∈ dag.pruned confirmations then none else dag.storage.hotBlocks.lookup hash := by
  have counted : ∀ after : GhostDag, after.countCheckpoint.storage.hotBlocks =
      after.storage.hotBlocks := by
    intro after
    unfold countCheckpoint
    dsimp only
    split_ifs <;> rfl
  rw [counted]
  unfold pruneBelowCheckpoint
  dsimp only
  split
  · rename_i short
    rw [pruned, drop_eq_nil_of_le short, if_neg not_mem_nil]
  · exact DagStorage.hotBlocks_foldl_finalize _ _

theorem database_settle {dag : GhostDag} :
    (dag.pruneBelowCheckpoint confirmations).countCheckpoint.storage.database = none ↔
      dag.storage.database = none := by
  have pruned : (dag.pruneBelowCheckpoint confirmations).storage.database =
      dag.storage.database := by
    unfold pruneBelowCheckpoint
    dsimp only
    split
    · rfl
    · exact (DagStorage.sameBehindCache_foldl_finalize _ _).database
  rw [← pruned]
  unfold countCheckpoint
  dsimp only
  split_ifs
  · rfl
  · exact Option.map_eq_none_iff
  · rfl

theorem countCheckpoint_eq {dag : GhostDag} : dag.countCheckpoint =
    { dag with storage := dag.countCheckpoint.storage } := by
  unfold countCheckpoint
  dsimp only
  split_ifs <;> rfl

theorem addBlock_eq
    (interval : ((dag.insertBlock block).colorNew search
      iteration block.hash).storage.confirmationsForCheckpoint = 100) :
    dag.addBlock search iteration block =
      (((dag.insertBlock block).colorNew search iteration block.hash).pruneBelowCheckpoint
        100).countCheckpoint := by
  unfold addBlock
  dsimp only
  rw [← colorNew, interval, if_pos (by decide)]

end Settle

section Step

variable (search : BinarySearch) (iteration : SetIteration Hash) (known : Known blocks dag)
  (new : New blocks block)

include known new

/-- One call: the block is inserted, the colouring has one of its outcomes, and the ordering is
cut. -/
theorem Known.call : ∃ colored, Outcome search iteration (dag.insertBlock block) block colored ∧
    Known (blocks ++ [block]) colored ∧ Pruned colored 100 (dag.addBlock search iteration block) ∧
    dag.addBlock search iteration block = (colored.pruneBelowCheckpoint 100).countCheckpoint := by
  obtain ⟨fresh, irreflexive⟩ := new
  have inserted := known.insertBlock fresh
  have uncolored := known.uncolored fresh
  have outcome := @outcome_colorNew _ iteration search _ (getBlock_insertBlock known.stored fresh)
    (by simp [GhostDag.insertBlock, DagStorage.setChildren, DagStorage.getChildren]) irreflexive
      uncolored inserted.scored
  have colored := inserted.outcome (by simp [hashes]) uncolored outcome
  have call := addBlock_eq colored.stored.interval
  refine ⟨_, outcome, colored, ?_, call⟩
  rw [call, countCheckpoint_eq]
  obtain ⟨genesisHash, rebuilt, ordering, blue, red, scores, times⟩ := pruned_pruneBelowCheckpoint
    ((dag.insertBlock block).colorNew search iteration block.hash) 100
  exact ⟨genesisHash, rebuilt, ordering, blue, red, scores, times⟩

theorem Known.addBlock : Known (blocks ++ [block]) (dag.addBlock search iteration block) := by
  obtain ⟨colored, -, known, pruned, call⟩ := known.call search iteration new
  have kept : ∀ hash ∈ colored.ordering.take (100 + 100), hash ∉ colored.pruned 100 := by
    intro hash early late
    have distinct := known.distinct
    rw [← take_append_drop (100 + 100) colored.ordering] at distinct
    exact disjoint_of_nodup_append distinct early late
  have remembered : ∀ {hash : Hash}, hash ∈ (dag.addBlock search iteration block).blueScore ↔
      hash ∈ colored.blueScore ∧ hash ∉ colored.pruned 100 := by
    intro hash
    rw [← lookup_isSome, pruned.scores, ← lookup_isSome]
    split <;> simp [*]
  refine ⟨?_, pruned.genesisHash.trans known.genesis,
    fun hash member => known.blue hash ((pruned.blue hash).mp member).1,
    fun hash member => known.red hash ((pruned.red hash).mp member).1,
    fun hash member => known.scores hash (remembered.mp member).1, ?_, ?_, ?_, ?_⟩
  · rw [call]
    exact stores_countCheckpoint (stores_pruneBelowCheckpoint known.stored 100)
  · intro hash member
    obtain ⟨blue, stays⟩ := (pruned.blue hash).mp member
    exact remembered.mpr ⟨known.scored hash blue, stays⟩
  · intro hash member
    rw [timestampOf, pruned.times]
    rw [← lookup_isSome, pruned.times] at member
    split at member
    · cases member
    · rename_i stays
      rw [if_neg stays]
      exact known.times hash (lookup_isSome.mp member)
  · rw [pruned.ordering]
    exact known.distinct.sublist (take_sublist _ _)
  · intro hash member
    rw [pruned.ordering] at member
    exact (pruned.blue hash).mpr ⟨known.ordered hash (mem_of_mem_take member), kept hash member⟩

theorem Known.database_addBlock :
    (dag.addBlock search iteration block).storage.database = none ↔
      dag.storage.database = none := by
  obtain ⟨colored, outcome, -, -, call⟩ := known.call search iteration new
  rw [call, database_settle, outcome.storage, database_insertBlock known.stored new.fresh]

end Step

end GhostDag

end IronDag
