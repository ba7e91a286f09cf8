import IronDag.Consensus.Finality

namespace IronDag

open Delivery BinarySearch SetIteration Option Finmap
open List hiding length

/-- The consensus part of a database. -/
structure Checkpoint where
  isSaved : Bool
  blueSet : Finset Hash
  blueScores : Table Hash U64
  ordering : List Hash

namespace DagStorage

def checkpoint (storage : DagStorage) : Option Checkpoint :=
  storage.database.map fun database =>
    ⟨database.checkpointMeta.isSome, database.checkpointBlueSet, database.checkpointBlueScores,
      database.checkpointOrdering⟩

/-- Everything about checkpoints that a storage holds. -/
structure SameCheckpoint (before after : DagStorage) : Prop where
  checkpoint : after.checkpoint = before.checkpoint
  counter : after.blocksSinceCheckpoint = before.blocksSinceCheckpoint

theorem SameCheckpoint.of_withoutChildren
    (same : second.withoutChildren = first.withoutChildren) : SameCheckpoint first second := by
  have checkpoints : second.withoutChildren.checkpoint = first.withoutChildren.checkpoint :=
    congrArg _ same
  refine ⟨?_, (congrArg blocksSinceCheckpoint same :)⟩
  simpa [DagStorage.checkpoint, withoutChildren, Function.comp_def] using checkpoints

theorem SameCheckpoint.trans (left : SameCheckpoint first second)
    (right : SameCheckpoint second third) : SameCheckpoint first third :=
  ⟨right.checkpoint.trans left.checkpoint, right.counter.trans left.counter⟩

theorem sameCheckpoint_foldl_finalize {storage : DagStorage} {dropped : List Hash} :
    SameCheckpoint storage { dropped.foldl finalize storage with hotBlocksOrder := order } := by
  have behind := sameBehindCache_foldl_finalize storage dropped
  refine ⟨?_, behind.blocksSinceCheckpoint⟩
  show (dropped.foldl finalize storage).database.map _ = storage.database.map _
  rw [behind.database]

theorem Stores.sameCheckpoint_addBlock (stores : storage.Stores blocks)
    (fresh : block.hash ∉ hashes blocks) : SameCheckpoint storage (storage.addBlock block) := by
  obtain ⟨count, added⟩ := stores.addBlock_eq fresh
  rw [added]
  refine SameCheckpoint.trans ?_ sameCheckpoint_foldl_finalize
  refine SameCheckpoint.trans ?_
    (.of_withoutChildren (withoutChildren_foldl (withoutChildren_persistChild block.hash) _ _))
  refine ⟨?_, rfl⟩
  simp [checkpoint, Function.comp_def]

end DagStorage

namespace GhostDag

theorem sameCheckpoint_pruneBelowCheckpoint (dag : GhostDag) (confirmations : Nat) :
    DagStorage.SameCheckpoint dag.storage (dag.pruneBelowCheckpoint confirmations).storage := by
  unfold pruneBelowCheckpoint
  dsimp only
  split
  · exact ⟨rfl, rfl⟩
  · exact DagStorage.sameCheckpoint_foldl_finalize

/-- Counting a block leaves the checkpoint alone, or replaces it by the current state. -/
theorem checkpoint_countCheckpoint {dag : GhostDag}
    (interval : dag.storage.confirmationsForCheckpoint = 100) :
    (dag.storage.blocksSinceCheckpoint + 1 < 100 ∧ dag.countCheckpoint.storage.checkpoint =
      dag.storage.checkpoint ∧
      dag.countCheckpoint.storage.blocksSinceCheckpoint = dag.storage.blocksSinceCheckpoint + 1) ∨
    (100 ≤ dag.storage.blocksSinceCheckpoint + 1 ∧
      dag.countCheckpoint.storage.checkpoint = (dag.storage.checkpoint.map fun old =>
        ⟨true, dag.blueSet, dag.blueScore ∪ old.blueScores, dag.ordering⟩) ∧
      dag.countCheckpoint.storage.blocksSinceCheckpoint = 0) := by
  unfold countCheckpoint
  rw [interval, if_neg (by decide)]
  split
  · rename_i due
    refine .inr ⟨due, ?_, rfl⟩
    simp [DagStorage.checkpoint, DagStorage.saveCheckpoint, Function.comp_def]
  · exact .inl ⟨by omega, rfl, rfl⟩

/-- The blue blocks, their scores and their order. -/
structure SameConsensus (first second : GhostDag) : Prop where
  blueSet : first.blueSet = second.blueSet
  blueScore : first.blueScore = second.blueScore
  ordering : first.ordering = second.ordering

/-- The checkpoint on disk is the state of the run when the counter was last reset. -/
structure Saved (state : List Block → GhostDag) (blocks : List Block) (dag : GhostDag)
    (checkpoint : Checkpoint) (saved rest : List Block) : Prop where
  split : blocks = saved ++ rest
  counter : rest.length = dag.storage.blocksSinceCheckpoint
  recent : rest.length < 100
  interval : 100 ∣ saved.length
  stored : dag.storage.checkpoint = some checkpoint
  blueSet : checkpoint.blueSet = (state saved).blueSet
  scores : ∀ hash score, (state saved).blueScore.lookup hash = some score →
    checkpoint.blueScores.lookup hash = some score
  ordering : checkpoint.ordering = (state saved).ordering
  unsaved : checkpoint.isSaved = false → checkpoint.ordering = []

theorem Saved.addBlock {iterations : Hash → SetIteration Hash} (known : Known blocks dag)
    (new : New blocks block)
    (next : state (blocks ++ [block]) = dag.addBlock search (iterations block.hash) block)
    (before : Saved state blocks dag checkpoint saved rest) :
    ∃ checkpoint saved rest,
      Saved state (blocks ++ [block])
        (dag.addBlock search (iterations block.hash) block) checkpoint saved rest := by
  obtain ⟨colored, outcome, reached, pruned, call⟩ := known.call search (iterations block.hash) new
  have same : DagStorage.SameCheckpoint dag.storage (colored.pruneBelowCheckpoint 100).storage := by
    have settled := sameCheckpoint_pruneBelowCheckpoint colored 100
    rw [outcome.storage] at settled
    exact ((known.stored.sameCheckpoint_addBlock new.fresh).trans
      (.of_withoutChildren (dag.withoutChildren_insertBlock block))).trans settled
  have interval := (stores_pruneBelowCheckpoint reached.stored 100).interval
  rw [call]
  rw [call] at next
  generalize colored.pruneBelowCheckpoint 100 = settled at same interval next ⊢
  rcases checkpoint_countCheckpoint interval with ⟨early, kept, counted⟩ | ⟨due, replaced, reset⟩
  · rw [same.counter, ← before.counter] at early counted
    refine ⟨checkpoint, saved, rest ++ [block], ?_, ?_, ?_, before.interval, ?_, before.blueSet,
      before.scores, before.ordering, before.unsaved⟩
    · rw [before.split, append_assoc]
    · rw [counted, length_append, length_singleton]
    · rwa [length_append]
    · rw [kept, same.checkpoint, before.stored]
  · rw [same.counter, ← before.counter] at due
    have length : (blocks ++ [block]).length = saved.length + 100 := by
      have recent := before.recent
      rw [before.split]
      simp only [length_append, length_singleton]
      omega
    rw [countCheckpoint_eq] at next
    refine ⟨⟨true, settled.blueSet, settled.blueScore ∪ checkpoint.blueScores, settled.ordering⟩,
      blocks ++ [block], [], (append_nil _).symm, reset.symm, by decide, ?_, ?_, ?_, ?_, ?_, ?_⟩
    · rw [length]
      exact Nat.dvd_add before.interval (dvd_refl 100)
    · rw [replaced, same.checkpoint, before.stored]
      rfl
    · rw [next]
    · intro hash score scored
      rw [next] at scored
      have present : hash ∈ settled.blueScore := mem_iff.mpr ⟨score, scored⟩
      exact (lookup_union_left present).trans scored
    · rw [next]
    · intro unsaved
      cases unsaved

section Run

variable (search : BinarySearch) (iterations : Hash → SetIteration Hash)

/-- The state over an initially empty database after some blocks. -/
abbrev stateOverDatabase (blocks : List Block) : GhostDag :=
  Run.run (call search iterations) (GhostDag.new (some .empty)) blocks

theorem delivered_stateOverDatabase (order : ParentsFirst blocks) (few : blocks.length ≤ 200) :
    Delivered search blocks (stateOverDatabase search iterations blocks) :=
  deliver_spec search iterations (some .empty) order few

theorem exists_database (order : ParentsFirst blocks) :
    ∃ database, (stateOverDatabase search iterations blocks).storage.database = some database := by
  have empty : ∀ contents ∈ some DagDatabase.empty, contents = .empty := by simp
  obtain ⟨-, disk⟩ := known_deliver search iterations empty order
  exact ne_none_iff_exists'.mp (mt disk.mp (by simp))

theorem saved_of_run (distinct : (hashes blocks).Nodup)
    (irreflexive : ∀ block ∈ blocks, block.hash ∉ block.parents) :
    ∀ front back, blocks = front ++ back → Known front (stateOverDatabase search iterations front) ∧
      ∃ checkpoint saved rest, Saved (stateOverDatabase search iterations) front
        (stateOverDatabase search iterations front) checkpoint saved rest := by
  have empty : ∀ contents ∈ some DagDatabase.empty, contents = .empty := by simp
  refine Run.invariant_of_prefixes (fun front dag => Known front dag ∧ ∃ checkpoint saved rest,
    Saved (stateOverDatabase search iterations) front dag checkpoint saved rest)
    (fun _ _ => True) ?_ ?_ (fun _ _ => trivial)
  · refine ⟨.new empty, ⟨false, ∅, ∅, []⟩, [], [], rfl,
      rfl, by decide, dvd_zero _, rfl, rfl, ?_, rfl, fun _ => rfl⟩
    intro hash score scored
    exact scored
  · rintro front block back split - ⟨known, checkpoint, saved, rest, before⟩
    have new : New front block :=
      ⟨fresh_of_split distinct split, irreflexive block (by simp [split])⟩
    refine ⟨known.addBlock search _ new, before.addBlock known new ?_⟩
    exact Run.run_append

end Run

/-- A long checkpoint is taken over as it is. -/
theorem withDatabase_of_long (saved : database.checkpointMeta ≠ none)
    (long : 100 < database.checkpointOrdering.length) :
    (withDatabase database).blueSet = database.checkpointBlueSet ∧
      (withDatabase database).blueScore = database.checkpointBlueScores ∧
      (withDatabase database).ordering = database.checkpointOrdering := by
  obtain ⟨entry, present⟩ := ne_none_iff_exists'.mp saved
  have nonempty : ¬(database.checkpointBlueSet = ∅ ∧ database.checkpointOrdering = []) := by
    rintro ⟨-, empty⟩
    simp [empty] at long
  unfold withDatabase
  simp only [DagStorage.loadCheckpoint, DagStorage.new, bind_some, present,
    if_neg nonempty, getD_some]
  rw [if_neg (by omega)]
  exact ⟨rfl, rfl, rfl⟩

theorem Saved.restored (before : Saved state blocks dag checkpoint saved rest)
    (known : Known saved (state saved)) (left : dag.storage.database = some database)
    (long : 100 < database.checkpointOrdering.length)
    (current : ∀ hash ∈ database.checkpointBlueScores, hash ∈ database.checkpointBlueSet) :
    SameConsensus (withDatabase database) (state saved) := by
  have stored := before.stored
  rw [DagStorage.checkpoint, left, map_some, some_inj] at stored
  subst stored
  have isSaved : database.checkpointMeta ≠ none := by
    intro missing
    have empty := before.unsaved (by simp [missing])
    simp only at empty
    simp [empty] at long
  obtain ⟨blueSet, blueScore, ordering⟩ := withDatabase_of_long isSaved long
  refine ⟨blueSet.trans before.blueSet, ?_, ordering.trans before.ordering⟩
  rw [blueScore]
  apply ext_lookup
  intro hash
  cases scored : (state saved).blueScore.lookup hash with
  | some score => exact before.scores hash score scored
  | none =>
    -- a score that the state does not have is not on disk either
    rw [lookup_eq_none]
    intro onDisk
    have blue : hash ∈ (state saved).blueSet := before.blueSet ▸ current hash onDisk
    exact lookup_eq_none.mp scored (known.scored hash blue)

theorem getAllBlocks_perm {database : DagDatabase}
    (stored : ∀ hash, database.blocks.lookup hash = find blocks hash)
    (distinct : (hashes blocks).Nodup) :
    database.getAllBlocks.Perm blocks := by
  refine (perm_insertionSort _ _).trans ?_
  have lookup : database.blocks.lookup = find blocks := funext stored
  rw [lookup]
  refine (perm_ext_iff_of_nodup ?_ (Nodup.of_map _ distinct)).mpr fun block => ?_
  · refine (nodup _ _).filterMap fun first second block inFirst inSecond => ?_
    exact ((find_eq_some_iff distinct).mp inFirst).2.symm.trans
      ((find_eq_some_iff distinct).mp inSecond).2
  · rw [mem_filterMap]
    constructor
    · rintro ⟨hash, -, found⟩
      exact ((find_eq_some_iff distinct).mp found).1
    · intro member
      have found := (find_eq_some_iff distinct).mpr ⟨member, rfl⟩
      refine ⟨block.hash, (mem_toList _ _ _).mpr (mem_keys.mpr ?_), found⟩
      rw [← lookup_isSome, stored, found]
      rfl

/-- A short checkpoint makes way for the stored blocks. -/
theorem withDatabase_of_short (short : database.checkpointOrdering.length ≤ 100)
    (nonempty : database.getAllBlocks ≠ []) :
    ∃ start : GhostDag, start.blueSet = ∅ ∧ start.blueScore = ∅ ∧ start.ordering = [] ∧
      SameConsensus (withDatabase database) (let rebuilt := (database.getAllBlocks.insertionSort
          (KeyLE fun block : Block =>
            block.header.blockNumber.toNat)).zipIdx.foldl restoreBlock start
        { rebuilt with ordering := rebuilt.ordering.reverse }) := by
  unfold withDatabase
  rw [if_pos]
  · unfold rebuildOrderingFromStorage
    dsimp only [DagStorage.new, elim_some]
    rw [if_neg nonempty]
    exact ⟨_, rfl, rfl, rfl, rfl, rfl, rfl⟩
  · simp only [DagStorage.loadCheckpoint, DagStorage.new, bind_some]
    cases database.checkpointMeta with
    | none => exact Nat.zero_le _
    | some entry =>
      split
      · exact Nat.zero_le _
      · exact short

end GhostDag

namespace Delivery

/-- Every block is on top of the one before it and has a larger number than all before it. -/
def LinearAfter (front : List Block) : List Block → Prop
  | [] => True
  | block :: rest =>
    block.parents = (front.getLast?.map Block.hash).toList ∧
      (∀ earlier ∈ front, earlier.header.blockNumber < block.header.blockNumber) ∧
      LinearAfter (front ++ [block]) rest

instance decidableLinearAfter : ∀ front blocks, Decidable (LinearAfter front blocks)
  | _, [] => inferInstanceAs (Decidable True)
  | front, block :: rest =>
    have := decidableLinearAfter (front ++ [block]) rest
    inferInstanceAs (Decidable (_ ∧ _ ∧ _))

abbrev Linear (blocks : List Block) : Prop :=
  LinearAfter [] blocks

theorem linearAfter_append_singleton {front blocks : List Block} {block : Block} :
    LinearAfter front (blocks ++ [block]) ↔ LinearAfter front blocks ∧
      block.parents = ((front ++ blocks).getLast?.map Block.hash).toList ∧
      ∀ earlier ∈ front ++ blocks, earlier.header.blockNumber < block.header.blockNumber := by
  induction blocks generalizing front with
  | nil => simp [LinearAfter]
  | cons head rest ih =>
    simp only [cons_append, LinearAfter, ih]
    have regroup : front ++ [head] ++ rest = front ++ head :: rest := by simp
    rw [regroup]
    tauto

theorem linear_append_singleton :
    Linear (blocks ++ [block]) ↔ Linear blocks ∧ block.parents =
      (blocks.getLast?.map Block.hash).toList ∧
      ∀ earlier ∈ blocks, earlier.header.blockNumber < block.header.blockNumber := by
  simpa using @linearAfter_append_singleton [] blocks block

section Linear

variable (linear : Linear blocks)

include linear

theorem parentsFirst_of_linear (distinct : (hashes blocks).Nodup) : ParentsFirst blocks := by
  induction blocks using reverseRecOn with
  | nil => exact trivial
  | append_singleton front last ih =>
    obtain ⟨frontLinear, onLast, -⟩ := linear_append_singleton.mp linear
    rw [hashes_append_singleton, nodup_append_comm, singleton_append, nodup_cons] at distinct
    refine parentsFirst_append_singleton.mpr ⟨ih frontLinear distinct.2, distinct.1, ?_⟩
    intro parent isParent
    rw [onLast, Option.mem_toList] at isParent
    obtain ⟨previous, isLast, rfl⟩ := Option.map_eq_some_iff.mp isParent
    exact mem_map_of_mem (mem_of_getLast? isLast)

theorem placed_of_linear : GhostDag.placed blocks = hashes blocks := by
  induction blocks using reverseRecOn with
  | nil => rfl
  | append_singleton front last ih =>
    obtain ⟨frontLinear, onLast, -⟩ := linear_append_singleton.mp linear
    by_cases first : front = []
    · simp [first, GhostDag.placed]
    · have hasParent : last.parents ≠ [] := by
        rw [onLast, getLast?_eq_getLast_of_ne_nil first]
        simp
      rw [GhostDag.placed_append_singleton first, ih frontLinear,
        if_neg hasParent, hashes_append_singleton]

theorem pairwise_number_of_linear :
    blocks.Pairwise fun left right => left.header.blockNumber < right.header.blockNumber := by
  induction blocks using reverseRecOn with
  | nil => exact Pairwise.nil
  | append_singleton front last ih =>
    obtain ⟨frontLinear, -, larger⟩ := linear_append_singleton.mp linear
    refine pairwise_append.mpr ⟨ih frontLinear, pairwise_singleton _ _, ?_⟩
    intro earlier member later isLast
    rw [mem_singleton.mp isLast]
    exact larger earlier member

end Linear

theorem depth_last_of_linear (linear : Linear (front ++ [last]))
    (order : ParentsFirst (front ++ [last])) :
    depth (front ++ [last]) last.hash = front.length + 1 := by
  induction front using reverseRecOn generalizing last with
  | nil =>
    obtain ⟨-, onLast, -⟩ := linear_append_singleton.mp linear
    rw [depth_new order, onLast]
    rfl
  | append_singleton front previous ih =>
    obtain ⟨frontLinear, onLast, -⟩ := linear_append_singleton.mp linear
    rw [depth_new order, onLast, getLast?_concat, map_some, toList_some, map_singleton,
      ih frontLinear (parentsFirst_append_singleton.mp order).1, length_append, length_singleton]
    rw [Height.largest, foldr_cons, foldr_nil]
    omega

theorem pairwise_depth_of_linear (linear : Linear blocks) (order : ParentsFirst blocks) :
    (hashes blocks).Pairwise fun left right => depth blocks left < depth blocks right := by
  induction blocks using reverseRecOn with
  | nil => exact Pairwise.nil
  | append_singleton front last ih =>
    have deepest := depth_last_of_linear linear order
    obtain ⟨frontLinear, -, -⟩ := linear_append_singleton.mp linear
    rw [hashes_append_singleton]
    have older := (ih frontLinear (parentsFirst_append_singleton.mp order).1).imp_of_mem
      fun {left right} inLeft inRight lower => by
      rw [← depth_append order inLeft, ← depth_append order inRight] at lower
      exact lower
    refine pairwise_append.mpr ⟨older, pairwise_singleton _ _, ?_⟩
    intro earlier member later isLast
    have bound := depth_le_length front earlier
    rw [mem_singleton.mp isLast, depth_append order member]
    omega

end Delivery

namespace GhostDag

/-- The positions of a linear chain are the depths of its blocks. -/
theorem restored_of_linear (noBlue : start.blueSet = ∅) (noScores : start.blueScore = ∅)
    (noOrder : start.ordering = []) (linear : Linear blocks) (order : ParentsFirst blocks) :
    (blocks.zipIdx.foldl restoreBlock start).blueSet = (hashes blocks).toFinset ∧
      (∀ hash, (blocks.zipIdx.foldl restoreBlock start).blueScore.lookup hash =
        if hash ∈ hashes blocks then some (BitVec.ofNat 64 (depth blocks hash)) else none) ∧
      (blocks.zipIdx.foldl restoreBlock start).ordering = hashes blocks := by
  induction blocks using reverseRecOn with
  | nil => simp [hashes, noBlue, noScores, noOrder]
  | append_singleton front last ih =>
    have deepest := depth_last_of_linear linear order
    obtain ⟨frontLinear, -, -⟩ := linear_append_singleton.mp linear
    obtain ⟨blue, scores, ordering⟩ := ih frontLinear (parentsFirst_append_singleton.mp order).1
    rw [zipIdx_append, foldl_append]
    simp only [zipIdx_singleton, foldl_cons, foldl_nil, restoreBlock, hashes_append_singleton]
    refine ⟨?_, ?_, ?_⟩
    · rw [blue]
      simp
    · intro hash
      rw [Table.lookup_write, scores]
      by_cases same : hash = last.hash
      · simp [same, deepest]
      · by_cases member : hash ∈ hashes front
        · simp [same, depth_append order member]
        · simp [same, member]
    · rw [ordering]

/-- A linear chain is restored from its blocks. -/
theorem Delivered.restored
    (delivered : Delivered search blocks dag) (linear : Linear blocks) (order : ParentsFirst blocks)
    (nonempty : blocks ≠ []) (stored : ∀ hash, database.blocks.lookup hash = find blocks hash)
    (short : database.checkpointOrdering.length ≤ 100) :
    SameConsensus (withDatabase database) dag := by
  have perm := getAllBlocks_perm stored (nodup_hashes order)
  have sorted : database.getAllBlocks.insertionSort
      (KeyLE fun block : Block => block.header.blockNumber.toNat) = blocks := by
    have increasing := pairwise_number_of_linear linear
    refine ((perm_insertionSort _ _).trans perm).eq_of_pairwise ?_ (pairwise_insertionSort _ _)
      (increasing.imp fun below => BitVec.le_of_lt below)
    intro left right inLeft inRight below above
    have numbers : (blocks.map fun block => block.header.blockNumber).Nodup :=
      pairwise_map.mpr (increasing.imp fun below => BitVec.ne_of_lt below)
    exact inj_on_of_nodup_map numbers
      (((perm_insertionSort _ _).trans perm).mem_iff.mp inLeft) inRight
      (BitVec.eq_of_toNat_eq (Nat.le_antisymm below above))
  obtain ⟨start, noBlue, noScores, noOrder, same⟩ := withDatabase_of_short short
    (fun empty => nonempty (perm_nil.mp (empty ▸ perm).symm))
  rw [sorted] at same
  obtain ⟨blue, scores, ordering⟩ := restored_of_linear noBlue noScores noOrder linear order
  refine ⟨same.blueSet.trans (blue.trans delivered.colored.blue.symm), ?_, same.ordering.trans ?_⟩
  · refine same.blueScore.trans (ext_lookup fun hash => ?_)
    exact (scores hash).trans (delivered.colored.scores hash).symm
  · dsimp only
    rw [ordering, delivered.ordering, placed_of_linear linear]
    have deeper := pairwise_depth_of_linear linear order
    have inserted := search.insertAll_perm (rank blocks) (hashes blocks)
    refine ((reverse_perm _).trans inserted.symm).eq_of_pairwise ?_ ?_
      (search.descending_insertAll _ _)
    · intro left right inLeft inRight below above
      have depths : ((hashes blocks).map (depth blocks)).Nodup :=
        pairwise_map.mpr (deeper.imp fun lower => lower.ne)
      have same : rank blocks left = rank blocks right := le_antisymm above below
      exact inj_on_of_nodup_map depths (mem_reverse.mp inLeft) (inserted.mem_iff.mp inRight)
        (congrArg (fun key => (ofLex key).1) same)
    · refine pairwise_reverse.mpr (deeper.imp fun {left right} lower => ?_)
      exact Prod.Lex.toLex_le_toLex.mpr (.inl lower)

/-- What a restart brings back: a checkpoint that is long enough and has no score of a block that is
no longer blue, or a linear chain. -/
def Restorable (blocks : List Block) (database : DagDatabase) : Prop :=
  (100 < database.checkpointOrdering.length ∧
    ∀ hash ∈ database.checkpointBlueScores, hash ∈ database.checkpointBlueSet) ∨
  (Linear blocks ∧ blocks.length < 200)

section Restart

variable (search : BinarySearch) (iterations : Hash → SetIteration Hash) {blocks : List Block}
  (distinct : (hashes blocks).Nodup) (irreflexive : ∀ block ∈ blocks, block.hash ∉ block.parents)
  {database : DagDatabase}
    (left : (stateOverDatabase search iterations blocks).storage.database = some database)

include distinct irreflexive left

/-- Before the second checkpoint the one on disk is short. -/
theorem short_checkpoint (few : blocks.length < 200) :
    database.checkpointOrdering.length ≤ 100 := by
  have run := saved_of_run search iterations distinct irreflexive
  obtain ⟨-, checkpoint, saved, rest, before⟩ := run blocks [] (append_nil _).symm
  obtain ⟨known, -⟩ := run saved rest before.split
  have stored := before.stored
  rw [DagStorage.checkpoint, left, map_some, some_inj] at stored
  have listed :=
    (known.distinct.subperm fun hash placed =>
      known.blue hash (known.ordered hash placed)).length_le
  have length := congrArg List.length before.split
  obtain ⟨multiple, isMultiple⟩ := before.interval
  rw [length_append] at length
  rw [← before.ordering, ← stored, hashes, length_map] at listed
  simp only at listed
  omega

/-- A restart over what a run left behind brings back a state of the run, not older than its last
checkpoint. -/
theorem restart_of_run (restorable : Restorable blocks database) : ∃ front back, blocks =
    front ++ back ∧
      back.length ≤ (stateOverDatabase search iterations blocks).storage.blocksSinceCheckpoint ∧
      SameConsensus (withDatabase database) (stateOverDatabase search iterations front) := by
  have run := saved_of_run search iterations distinct irreflexive
  obtain ⟨known, checkpoint, saved, rest, before⟩ := run blocks [] (append_nil _).symm
  rcases restorable with ⟨long, current⟩ | ⟨linear, few⟩
  · exact ⟨saved, rest, before.split, before.counter.le,
      before.restored (run saved rest before.split).1 left long current⟩
  · refine ⟨blocks, [], (append_nil _).symm, Nat.zero_le _, ?_⟩
    by_cases first : blocks = []
    · subst first
      obtain rfl : DagDatabase.empty = database := some.inj left
      exact ⟨rfl, rfl, rfl⟩
    · have order := parentsFirst_of_linear linear distinct
      have delivered := delivered_stateOverDatabase search iterations order (by omega)
      exact delivered.restored linear order first (known.stored.disk database left)
        (short_checkpoint search iterations distinct irreflexive left few)

end Restart

theorem linear_chain (fits : length < 2 ^ 64) : Linear (chain 1 length) := by
  induction length with
  | zero => exact trivial
  | succ length ih =>
    rw [chain_succ, linear_append_singleton]
    refine ⟨ih (by omega), ?_, ?_⟩
    · cases length with
      | zero => rfl
      | succ length =>
        rw [chain_succ]
        simp [chainBlock, plainBlock]
    · intro earlier member
      obtain ⟨position, inside, rfl⟩ := mem_map.mp member
      rw [mem_range] at inside
      simp only [chainBlock, plainBlock, BitVec.lt_def, BitVec.toNat_ofNat]
      rw [Nat.mod_eq_of_lt (by omega), Nat.mod_eq_of_lt (by omega)]
      exact inside

/-- A chain with a checkpoint and fifty more blocks. -/
theorem chain_restart :
    ∃ database, (stateOverDatabase standard numericIterations (chain 1 150)).storage.database =
      some database ∧ ∃ front back, chain 1 150 = front ++ back ∧ back.length ≤
          (stateOverDatabase standard numericIterations
            (chain 1 150)).storage.blocksSinceCheckpoint ∧
        SameConsensus (withDatabase database)
          (stateOverDatabase standard numericIterations front) := by
  have order := @parentsFirst_chain 1 (by decide) 150 (by decide)
  obtain ⟨database, left⟩ := exists_database standard numericIterations order
  exact ⟨database, left, restart_of_run standard numericIterations (nodup_hashes order)
    (childrenLater_of_parentsFirst order).2 left (.inr ⟨linear_chain (by decide), by simp [chain]⟩)⟩

/-- A fork at the end of a chain, a hundred blocks in all. -/
def forkedChain : List Block :=
  chain 1 99 ++ [plainBlock 100 [98] 98 1600000985]

theorem parentsFirst_forkedChain : ParentsFirst forkedChain := by
  have known : ∀ {hash : Hash}, hash ∈ hashes (chain 1 99) ↔
      ∃ position < 99, hash = BitVec.ofNat 256 (position + 1) :=
    mem_hashes_chain
  refine parentsFirst_append_singleton.mpr
    ⟨parentsFirst_chain Nat.one_pos (by decide), fun member => ?_, ?_⟩
  · obtain ⟨position, bound, same⟩ := known.mp member
    have value := congrArg BitVec.toNat same
    rw [BitVec.toNat_ofNat, Nat.mod_eq_of_lt (by omega)] at value
    change 100 = position + 1 at value
    omega
  · intro parent isParent
    rw [show parent = 98 by simpa [plainBlock, Block.parents] using isParent]
    exact known.mpr ⟨97, by decide, rfl⟩

/-- The checkpoint is fresh, and the last block comes back with its position for its score. -/
theorem scores_forkedChain :
    let dag := stateOverDatabase standard numericIterations forkedChain
    dag.storage.blocksSinceCheckpoint = 0 ∧ dag.blueScore.lookup 100 = some 99 ∧
      dag.storage.database.map (fun database => (withDatabase database).blueScore.lookup 100) =
        some (some 100) := by
  decide +kernel

/-- The two blocks of the fork have one depth, but different positions among the stored blocks. -/
theorem forked_chain_rescored : ParentsFirst forkedChain ∧ ∃ database,
      (stateOverDatabase standard numericIterations forkedChain).storage.database = some database ∧
      ¬∃ front back, forkedChain = front ++ back ∧ back.length ≤
          (stateOverDatabase standard numericIterations forkedChain).storage.blocksSinceCheckpoint ∧
        SameConsensus (withDatabase database)
          (stateOverDatabase standard numericIterations front) := by
  obtain ⟨fresh, score, reopened⟩ := scores_forkedChain
  obtain ⟨database, left, rescored⟩ := map_eq_some_iff.mp reopened
  refine ⟨parentsFirst_forkedChain, database, left, ?_⟩
  rintro ⟨front, back, split, recent, same⟩
  have whole : back = [] := eq_nil_of_length_eq_zero (Nat.le_zero.mp (fresh ▸ recent))
  rw [whole, append_nil] at split
  rw [same.blueScore, ← split, score] at rescored
  exact absurd rescored (by decide)

end GhostDag

end IronDag
