import IronDag.Consensus.Agreement

namespace IronDag

open Delivery Traversal GhostDag BinarySearch
open List hiding after

namespace Delivery

/-- The DAG in breadth-first order from its first block, children in order of delivery. -/
def breadthOrder : List Block → List Hash
  | [] => []
  | genesis :: later =>
    breadthFirst (childrenOf (genesis :: later)) (genesis :: later).length [genesis.hash]
      [genesis.hash]

theorem mem_childrenOf :
    child ∈ childrenOf blocks parent ↔ ∃ block ∈ blocks, parent ∈ block.parents ∧
      block.hash = child := by
  simp [childrenOf, hashes, and_assoc]

theorem childrenOf_subset (isChild : child ∈ childrenOf blocks parent) : child ∈ hashes blocks := by
  obtain ⟨block, member, -, rfl⟩ := mem_childrenOf.mp isChild
  exact mem_map_of_mem member

section BreadthOrder

theorem nodup_breadthOrder :
    (breadthOrder (genesis :: later)).Nodup := nodup_breadthFirst (nodup_singleton _)

theorem breadthOrder_eq_cons (genesis : Block) (later : List Block) :
    ∃ rest, breadthOrder (genesis :: later) = genesis.hash :: rest :=
  breadthFirst_eq_append _ _ _ [genesis.hash]

/-- Every block but the first is reached through one of its parents. -/
theorem breadthOrder_found {hash : Hash}
    (split : breadthOrder (genesis :: later) = before ++ hash :: after) :
    hash = genesis.hash ∨ ∃ parent ∈ before, hash ∈ childrenOf (genesis :: later) parent := by
  have start :
      Traversal.FoundFrom (childrenOf (genesis :: later)) [genesis.hash] [genesis.hash] := by
    intro before node after split
    exact .inl (by simp [split])
  have found : Traversal.FoundFrom (childrenOf (genesis :: later)) [genesis.hash]
      (breadthOrder (genesis :: later)) :=
    foundFrom_breadthFirst (by simp) start
  simpa using found before hash after split

theorem breadthOrder_subset {hash : Hash} (member : hash ∈ breadthOrder (genesis :: later)) :
    hash ∈ hashes (genesis :: later) := by
  obtain ⟨before, after, split⟩ := append_of_mem member
  rcases breadthOrder_found split with rfl | ⟨parent, -, isChild⟩
  · simp [hashes]
  · exact childrenOf_subset isChild

theorem breadthOrder_closed (member : parent ∈ breadthOrder (genesis :: later))
    (isChild : child ∈ childrenOf (genesis :: later) parent) :
    child ∈ breadthOrder (genesis :: later) := by
  have stays : ∀ node ∈ hashes (genesis :: later), ∀ child ∈ childrenOf (genesis :: later) node,
      child ∈ hashes (genesis :: later) := fun _ _ _ isChild => childrenOf_subset isChild
  have inside : ∀ node ∈ [] ++ [genesis.hash], node ∈ hashes (genesis :: later) := by simp [hashes]
  obtain ⟨reached, found, closed⟩ := breadthFirst_exhausts stays (genesis :: later).length
    (by simp [hashes]) (by simp) inside (by simp)
  have whole : breadthOrder (genesis :: later) = reached := found 0
  rw [whole] at member ⊢
  exact closed parent member child isChild

end BreadthOrder

section Roots

def AtMostOneRoot (blocks : List Block) : Prop :=
  ∀ left ∈ blocks, ∀ right ∈ blocks, left.parents = [] → right.parents = [] → left = right

/-- No block is reached before all of its deepest parents. -/
def DeepestParentBefore (blocks : List Block) : Prop :=
  Height.LargestBefore (parentsOf blocks) (breadthOrder blocks) (depth blocks)

/-- Blocks of one depth carry one timestamp. -/
def SimultaneousLevels (blocks : List Block) : Prop :=
  ∀ left ∈ blocks, ∀ right ∈ blocks, depth blocks left.hash = depth blocks right.hash →
    left.header.timestamp = right.header.timestamp

variable (order : ParentsFirst (genesis :: later))

include order

/-- The traversal reaches the whole DAG exactly if nothing else starts it. -/
theorem mem_breadthOrder_iff_atMostOneRoot :
    (∀ hash ∈ hashes (genesis :: later), hash ∈ breadthOrder (genesis :: later)) ↔
      AtMostOneRoot (genesis :: later) := by
  constructor
  · intro reached
    have isGenesis : ∀ block ∈ genesis :: later, block.parents = [] →
        block.hash = genesis.hash := by
      intro block member root
      obtain ⟨before, after, split⟩ := append_of_mem (reached block.hash (mem_map_of_mem member))
      rcases breadthOrder_found split with same | ⟨parent, -, isChild⟩
      · exact same
      · obtain ⟨found, inBlocks, isParent, sameHash⟩ := mem_childrenOf.mp isChild
        rw [eq_of_hash_eq (nodup_hashes order) inBlocks member sameHash, root] at isParent
        exact absurd isParent (by simp)
    intro left inLeft right inRight leftRoot rightRoot
    exact eq_of_hash_eq (nodup_hashes order) inLeft inRight
      ((isGenesis left inLeft leftRoot).trans (isGenesis right inRight rightRoot).symm)
  · intro single
    suffices general : ∀ bound, ∀ hash ∈ hashes (genesis :: later),
        depth (genesis :: later) hash ≤ bound → hash ∈ breadthOrder (genesis :: later) from
      fun hash member => general _ hash member le_rfl
    -- along the depth: a block with parents is a child of a block reached before
    intro bound
    induction bound with
    | zero =>
      intro hash member shallow
      rw [depth_eq order member, Height.fromParents] at shallow
      omega
    | succ bound ih =>
      intro hash member shallow
      obtain ⟨block, inBlocks, rfl⟩ := mem_map.mp member
      cases shape : block.parents with
      | nil =>
        obtain ⟨rest, starts⟩ := breadthOrder_eq_cons genesis later
        rw [single block inBlocks genesis (by simp) shape (genesis_parents order), starts]
        exact mem_cons_self
      | cons parent others =>
        have isParent : parent ∈ block.parents := by simp [shape]
        have listed : parent ∈ parentsOf (genesis :: later) block.hash := by
          rwa [parentsOf_of_mem (nodup_hashes order) inBlocks]
        have lower := depth_parent_lt order member listed
        have reached := ih parent (parentsOf_mem order member listed) (by omega)
        exact breadthOrder_closed reached (mem_childrenOf.mpr ⟨block, inBlocks, isParent, rfl⟩)

end Roots

end Delivery

namespace GhostDag

/-- The traversal with the blocks of `done` scored by `value`. -/
structure Scored (blocks : List Block) (dag : GhostDag) (done : List Hash) (value : Hash → Nat)
    (state : GhostDag) : Prop where
  storage : state.storage = dag.storage
  timestamps : state.blockTimestamps = dag.blockTimestamps
  blue : state.blueSet = done.toFinset
  red : state.redSet = ∅
  along : Height.ScoredAlong (parentsOf blocks) done value
  scores : ∀ hash, state.blueScore.lookup hash =
    if hash ∈ done then some (BitVec.ofNat 64 (value hash)) else none

section Traversal

variable (order : ParentsFirst (genesis :: later)) (few : (genesis :: later).length ≤ 1000)
  {dag : GhostDag}

theorem Scored.reset (later : List Block) (dag : GhostDag)
    (root : parentsOf (genesis :: later) genesis.hash = []) :
    Scored (genesis :: later) dag [genesis.hash] (fun _ => 1) (dag.resetTo genesis.hash) := by
  refine ⟨rfl, rfl, by simp [resetTo], rfl, ?_, ?_⟩
  · intro before node after split
    obtain ⟨rfl, rest⟩ | ⟨tail, -, absurdity⟩ := cons_eq_append_iff.mp split
    · rw [(cons.inj rest).1, root]
      rfl
    · simp at absurdity
  · simp [resetTo, Table.lookup_write]

/-- The traversal of the stored DAG runs in breadth-first order of delivery. -/
theorem breadthFirst_eq_breadthOrder (stored : dag.storage.Holds (genesis :: later)) :
    breadthFirst dag.storage.getChildren dag.traversalFuel [genesis.hash] [genesis.hash] =
      breadthOrder (genesis :: later) := by
  obtain ⟨listed, entries, allChildren⟩ := dag.storage.exists_all_children
  have first : genesis.hash ∈ hashes (genesis :: later) := by simp [hashes]
  have sameChildren : ∀ hash ∈ hashes (genesis :: later),
      dag.storage.getChildren hash = childrenOf (genesis :: later) hash :=
        fun _ member => stored.getChildren member
  have stays : ∀ hash ∈ hashes (genesis :: later), ∀ child ∈ childrenOf (genesis :: later) hash,
      child ∈ hashes (genesis :: later) := fun _ _ _ isChild => childrenOf_subset isChild
  have storedStays : ∀ hash ∈ hashes (genesis :: later), ∀ child ∈ dag.storage.getChildren hash,
      child ∈ hashes (genesis :: later) := fun hash member child isChild =>
    stays hash member child (sameChildren hash member ▸ isChild)
  have reaches : ∀ node ∈ genesis.hash :: listed, ∀ child ∈ dag.storage.getChildren node,
      child ∈ genesis.hash :: listed := fun node _ child isChild =>
    List.mem_cons_of_mem _ (allChildren node child isChild)
  have known :
      ∀ node ∈ [] ++ [genesis.hash], node ∈ hashes (genesis :: later) := by simpa using first
  have start : ∀ node ∈ [] ++ [genesis.hash], node ∈ genesis.hash :: listed := by simp
  obtain ⟨reached, fuelled, -⟩ := breadthFirst_exhausts reaches dag.traversalFuel
    (by simp [traversalFuel, entries]) (by simp) start (by simp)
  obtain ⟨order, counted, -⟩ := breadthFirst_exhausts stays (genesis :: later).length
    (by simp [hashes]) (by simp) known (by simp)
  calc breadthFirst dag.storage.getChildren dag.traversalFuel [genesis.hash] [genesis.hash]
      = breadthFirst dag.storage.getChildren (dag.traversalFuel + (genesis :: later).length)
          [genesis.hash] [genesis.hash] := (fuelled 0).trans (fuelled _).symm
    _ = breadthFirst (childrenOf (genesis :: later)) ((genesis :: later).length + dag.traversalFuel)
          [genesis.hash] [genesis.hash] := by
        rw [Nat.add_comm]
        exact breadthFirst_congr storedStays sameChildren known
    _ = breadthOrder (genesis :: later) := (counted _).trans (counted 0).symm

include order few

/-- Scoring one more block that was found through a parent. -/
theorem Scored.scoreChild (stored : dag.storage.Holds (genesis :: later))
    (scored : Scored (genesis :: later) dag done value state)
    (inside : ∀ hash ∈ done, hash ∈ hashes (genesis :: later))
    (member : block ∈ genesis :: later) (fresh : block.hash ∉ done)
    (reached : ∃ parent ∈ block.parents, parent ∈ done) :
    ∃ next, Scored (genesis :: later) dag (done ++ [block.hash]) next
      (state.scoreChild block.hash) := by
  have found : state.storage.getBlock block.hash = some block := by
    rw [scored.storage]
    exact stored.getBlock order member
  have scores : state.parentScores block.parents =
      (block.parents.filter (· ∈ done)).map fun parent => BitVec.ofNat 64 (value parent) := by
    simp only [parentScores, scored.blue, mem_toFinset]
    rw [← filterMap_eq_map]
    apply filterMap_congr
    intro parent isParent
    have inDone : parent ∈ done := by simpa using (mem_filter.mp isParent).2
    simp [scored.scores, inDone]
  have nonempty : block.parents.filter (· ∈ done) ≠ [] := by
    obtain ⟨parent, isParent, inDone⟩ := reached
    exact ne_nil_of_mem (mem_filter.mpr ⟨isParent, by simpa using inDone⟩)
  have bounded : ∀ parent ∈ block.parents.filter (· ∈ done), value parent < 2 ^ 64 := by
    intro parent isParent
    have inDone : parent ∈ done := by simpa using (mem_filter.mp isParent).2
    have below := scored.along.le_reference (fun hash member => depth_eq order (inside hash member))
      parent inDone
    have bound := depth_le_length (genesis :: later) parent
    omega
  obtain ⟨best, isBest, above⟩ := maxScore_map_ofNat nonempty bounded
  have step : state.scoreChild block.hash = state.markBlue block.hash (best + 1) := by
    unfold GhostDag.scoreChild
    rw [found]
    dsimp only
    rw [scores, isBest]
  rw [step, above]
  have along := scored.along.append_singleton fresh
  rw [parentsOf_of_mem (nodup_hashes order) member] at along
  refine ⟨_, scored.storage, scored.timestamps, ?_, scored.red, along, ?_⟩
  · simp only [markBlue, scored.blue, toFinset_append]
    rw [Finset.union_comm]
    rfl
  · intro hash
    simp only [markBlue, Table.lookup_write, scored.scores]
    by_cases same : hash = block.hash <;> simp [same]

/-- The whole traversal, from any point of it on. -/
theorem Scored.run (stored : dag.storage.Holds (genesis :: later)) :
    ∀ {done : List Hash} {value : Hash → Nat} {state : GhostDag},
      breadthOrder (genesis :: later) = done ++ rest → genesis.hash ∈ done →
      Scored (genesis :: later) dag done value state →
      ∃ final, Scored (genesis :: later) dag (done ++ rest) final
        (rest.foldl GhostDag.scoreChild state) := by
  induction rest with
  | nil =>
    intro done value state _ _ scored
    exact ⟨value, by simpa using scored⟩
  | cons child rest ih =>
    intro done value state split started scored
    have distinct : (done ++ child :: rest).Nodup := split ▸ nodup_breadthOrder
    have fresh : child ∉ done := fun known =>
      (disjoint_of_nodup_append distinct) known mem_cons_self
    have inside : ∀ hash ∈ done, hash ∈ hashes (genesis :: later) := fun hash member =>
      breadthOrder_subset (split ▸ mem_append_left _ member)
    rcases breadthOrder_found split with rfl | ⟨parent, inDone, isChild⟩
    · exact absurd started fresh
    · obtain ⟨block, member, isParent, rfl⟩ := mem_childrenOf.mp isChild
      obtain ⟨next, extended⟩ :=
        scored.scoreChild order few stored inside member fresh ⟨parent, isParent, inDone⟩
      have regroup : done ++ block.hash :: rest = (done ++ [block.hash]) ++ rest := by simp
      rw [regroup] at split ⊢
      exact ih split (mem_append_left _ started) extended

/-- What `rebuild_from_scratch` leaves behind. -/
theorem rebuildFromScratch_spec (iteration : SetIteration Hash)
    (colored : Colored (genesis :: later) dag) :
    ∃ value, Scored (genesis :: later) dag (breadthOrder (genesis :: later)) value
      (dag.rebuildFromScratch iteration) ∧
      (dag.rebuildFromScratch iteration).ordering =
        (dag.rebuildFromScratch iteration).sortedOrdering iteration := by
  have found : dag.storage.getBlock genesis.hash = some genesis :=
    colored.stored.getBlock order (by simp)
  have root := genesis_parents order
  obtain ⟨rest, starts⟩ := breadthOrder_eq_cons genesis later
  have reset :=
    Scored.reset later dag (by rw [parentsOf_of_mem (nodup_hashes order) (by simp), root])
  obtain ⟨value, scored⟩ := reset.run order few colored.stored starts (by simp)
  have visited : Traversal.visitBreadthFirst dag.storage.getChildren scoreChild dag.traversalFuel
      [genesis.hash] [genesis.hash] (dag.resetTo genesis.hash) =
        rest.foldl scoreChild (dag.resetTo genesis.hash) := by
    rw [visitBreadthFirst_eq, breadthFirst_eq_breadthOrder colored.stored, starts]
    rfl
  have rebuilt : dag.rebuildFromScratch iteration =
      { rest.foldl scoreChild (dag.resetTo genesis.hash) with
        ordering :=
          (rest.foldl scoreChild (dag.resetTo genesis.hash)).sortedOrdering iteration } := by
    simp only [rebuildFromScratch, updateBlueSet, colored.genesis, head?_cons,
      Option.map_some, found]
    rw [if_neg (by simpa using root), visited]
  rw [rebuilt, starts]
  exact ⟨value,
    ⟨scored.storage, scored.timestamps, scored.blue, scored.red, scored.along, scored.scores⟩, rfl⟩

end Traversal

/-- Equal scores come with equal timestamps. -/
def SimultaneousIfLevel (left right : U64 × U64) : Prop :=
  left.1 = right.1 → left.2 = right.2

instance : Std.Symm SimultaneousIfLevel where
  symm _ _ related level := (related level.symm).symm

/-- The maintained ordering has descending timestamps per score. -/
theorem Delivered.ordering_laterFirst (delivered : Delivered search blocks dag)
    (few : blocks.length ≤ 1000) : (dag.ordering.map dag.rankOf).Pairwise LaterFirst := by
  have sorted := search.descending_insertAll (rank blocks) (placed blocks)
  rw [← delivered.ordering] at sorted
  rw [pairwise_map]
  refine sorted.imp_of_mem fun {left right} inLeft inRight descending => ?_
  have known : ∀ hash ∈ dag.ordering, hash ∈ hashes blocks := by
    intro hash member
    rw [delivered.ordering] at member
    exact placed_subset ((search.insertAll_perm _ _).mem_iff.mp member)
  have leftScore := delivered.colored.scoreOf few (known left inLeft)
  have rightScore := delivered.colored.scoreOf few (known right inRight)
  have timestamp : ∀ hash, dag.timestampOf hash = Delivery.timestampOf blocks hash := by
    intro hash
    rw [timestampOf, delivered.colored.timestamps, Delivery.timestampOf]
  rw [rank, rank, Prod.Lex.toLex_le_toLex] at descending
  simp only [LaterFirst, rankOf, timestamp, BitVec.lt_def, BitVec.le_def, ← BitVec.toNat_inj]
  omega

/-- Equal consensus state, except for the order of blocks with equal score and timestamp. -/
structure SameUpToTies (maintained rebuilt : GhostDag) : Prop where
  blueSet : maintained.blueSet = rebuilt.blueSet
  redSet : maintained.redSet = rebuilt.redSet
  blueScore : maintained.blueScore = rebuilt.blueScore
  ordering : maintained.ordering.Perm rebuilt.ordering
  ranks : maintained.ordering.map maintained.rankOf = rebuilt.ordering.map rebuilt.rankOf

/-- The DAGs on which the traversal computes what the incremental update maintains. -/
structure Rebuildable (blocks : List Block) : Prop where
  oneRoot : AtMostOneRoot blocks
  deepestBefore : DeepestParentBefore blocks
  simultaneous : SimultaneousLevels blocks

section Compare

variable (order : ParentsFirst (genesis :: later)) (few : (genesis :: later).length ≤ 1000)
  (delivered : Delivered search (genesis :: later) dag)
  (scored : Scored (genesis :: later) dag (breadthOrder (genesis :: later)) value rebuilt)

include order few delivered scored

/-- Where both are scored, the scores agree exactly if the traversal computed the depth. -/
theorem Scored.score_eq_iff {hash : Hash} (reached : hash ∈ breadthOrder (genesis :: later)) :
    dag.blueScore.lookup hash = rebuilt.blueScore.lookup hash ↔
      value hash = depth (genesis :: later) hash := by
  have known := breadthOrder_subset reached
  have below := scored.along.le_reference
    (fun hash member => depth_eq order (breadthOrder_subset member)) hash reached
  have bound := depth_le_length (genesis :: later) hash
  rw [delivered.colored.scores, scored.scores, if_pos known, if_pos reached, Option.some_inj,
    ← BitVec.toNat_inj,
    BitVec.toNat_ofNat, BitVec.toNat_ofNat, Nat.mod_eq_of_lt (by omega),
      Nat.mod_eq_of_lt (by omega)]
  exact eq_comm

omit few delivered in
/-- The scores are the depths exactly if no block is reached before its deepest parents. -/
theorem Scored.deep_iff
    (reached : ∀ hash ∈ hashes (genesis :: later), hash ∈ breadthOrder (genesis :: later)) :
    (∀ hash ∈ breadthOrder (genesis :: later), value hash = depth (genesis :: later) hash) ↔
      DeepestParentBefore (genesis :: later) := by
  refine scored.along.eq_reference_iff
    (fun hash member => depth_eq order (breadthOrder_subset member)) ?_
  exact fun hash member parent isParent =>
    reached parent (parentsOf_mem order (breadthOrder_subset member) isParent)

omit few in
/-- The recomputed ordering, against the blocks that were reached. -/
theorem Scored.ordering_spec (sorted : rebuilt.ordering = rebuilt.sortedOrdering iteration) :
    rebuilt.ordering.Perm (breadthOrder (genesis :: later)) ∧
      (rebuilt.ordering.map rebuilt.rankOf).Pairwise EarlierFirst := by
  have stored : ∀ hash ∈ rebuilt.blueSet, ∃ block, rebuilt.storage.getBlock hash = some block ∧
      rebuilt.timestampOf hash = block.header.timestamp := by
    intro hash member
    rw [scored.blue, mem_toFinset] at member
    obtain ⟨block, inBlocks, rfl⟩ := mem_map.mp (breadthOrder_subset member)
    refine ⟨block, ?_, ?_⟩
    · rw [scored.storage]
      exact delivered.colored.stored.getBlock order inBlocks
    · rw [timestampOf, scored.timestamps, delivered.colored.timestamps,
        (find_eq_some_iff (nodup_hashes order)).mpr ⟨inBlocks, rfl⟩]
      rfl
  obtain ⟨perm, ascending⟩ := sortedOrdering_spec stored
  rw [sorted, pairwise_map]
  refine ⟨perm.trans
    ((perm_ext_iff_of_nodup (iteration.nodup _) nodup_breadthOrder).mpr ?_), ascending⟩
  intro hash
  rw [iteration.mem_toList, scored.blue, mem_toFinset]

theorem Scored.rebuildable
    (sorted : rebuilt.ordering = rebuilt.sortedOrdering iteration)
    (same : SameUpToTies dag rebuilt) :
    Rebuildable (genesis :: later) := by
  have reached : ∀ hash ∈ hashes (genesis :: later), hash ∈ breadthOrder (genesis :: later) := by
    intro hash member
    have blue : hash ∈ dag.blueSet := by simpa [delivered.colored.blue] using member
    rw [same.blueSet, scored.blue] at blue
    simpa using blue
  refine ⟨(mem_breadthOrder_iff_atMostOneRoot order).mp reached, ?_, ?_⟩
  · refine (scored.deep_iff order reached).mp fun hash member => ?_
    exact (scored.score_eq_iff order few delivered member).mp (by rw [same.blueScore])
  · intro left inLeft right inRight level
    obtain ⟨perm, ascending⟩ := scored.ordering_spec order delivered sorted
    have descending := delivered.ordering_laterFirst few
    rw [← same.ranks] at ascending
    -- sorted both ways, entries of one score carry one timestamp
    have constant : (dag.ordering.map dag.rankOf).Pairwise SimultaneousIfLevel := by
      refine (descending.and ascending).imp ?_
      simp only [SimultaneousIfLevel, LaterFirst, EarlierFirst, BitVec.lt_def, BitVec.le_def,
        ← BitVec.toNat_inj] at *
      omega
    have everywhere := constant.forall_of_forall fun _ _ _ => rfl
    have listed :
        ∀ block ∈ genesis :: later, dag.rankOf block.hash ∈ dag.ordering.map dag.rankOf := by
      intro block member
      refine mem_map_of_mem
        ((same.ordering.trans perm).mem_iff.mpr (reached _ (mem_map_of_mem member)))
    have sameScore : dag.scoreOf left.hash = dag.scoreOf right.hash := by
      rw [← BitVec.toNat_inj, delivered.colored.scoreOf few (mem_map_of_mem inLeft),
        delivered.colored.scoreOf few (mem_map_of_mem inRight), level]
    have sameTime := everywhere (listed left inLeft) (listed right inRight) sameScore
    simpa [rankOf, timestampOf, delivered.colored.timestamps,
      (find_eq_some_iff (nodup_hashes order)).mpr ⟨inLeft, rfl⟩,
      (find_eq_some_iff (nodup_hashes order)).mpr ⟨inRight, rfl⟩] using sameTime

theorem Scored.sameUpToTies
    (sorted : rebuilt.ordering = rebuilt.sortedOrdering iteration)
    (rebuildable : Rebuildable (genesis :: later)) :
    SameUpToTies dag rebuilt := by
  obtain ⟨oneRoot, deepestBefore, simultaneous⟩ := rebuildable
  have reached := (mem_breadthOrder_iff_atMostOneRoot order).mpr oneRoot
  have mem_iff : ∀ hash, hash ∈ hashes (genesis :: later) ↔
      hash ∈ breadthOrder (genesis :: later) :=
    fun hash => ⟨reached hash, breadthOrder_subset⟩
  have deep := (scored.deep_iff order reached).mpr deepestBefore
  have blueScore : dag.blueScore = rebuilt.blueScore := by
    refine Finmap.ext_lookup fun hash => ?_
    by_cases member : hash ∈ breadthOrder (genesis :: later)
    · exact (scored.score_eq_iff order few delivered member).mpr (deep hash member)
    · rw [delivered.colored.scores, scored.scores, if_neg member,
        if_neg (fun known => member (reached hash known))]
  have sameRanks : dag.rankOf = rebuilt.rankOf := by
    funext hash
    rw [rankOf, rankOf, scoreOf, scoreOf, blueScore, timestampOf, timestampOf, scored.timestamps]
  obtain ⟨perm, ascending⟩ := scored.ordering_spec order delivered sorted
  have single : SingleGenesis (genesis :: later) :=
    ⟨genesis, by simp, genesis_parents order, fun other member root =>
      oneRoot other member genesis (by simp) root (genesis_parents order)⟩
  have ordering : dag.ordering.Perm rebuilt.ordering := by
    rw [delivered.ordering, placed_eq_hashes order single]
    refine (search.insertAll_perm _ _).trans (Perm.trans ?_ perm.symm)
    exact (perm_ext_iff_of_nodup (nodup_hashes order) nodup_breadthOrder).mpr mem_iff
  refine ⟨?_, ?_, blueScore, ordering, ?_⟩
  · rw [delivered.colored.blue, scored.blue]
    exact Finset.ext fun hash => by simp [mem_iff hash]
  · rw [delivered.colored.red, scored.red]
  · -- within a level all timestamps are equal, so ascending is descending
    have descending : (rebuilt.ordering.map rebuilt.rankOf).Pairwise LaterFirst := by
      rw [pairwise_map] at ascending ⊢
      refine ascending.imp_of_mem fun {left right} inLeft inRight earlierFirst => ?_
      rcases earlierFirst with higher | ⟨level, -⟩
      · exact .inl higher
      · obtain ⟨leftBlock, leftMember, rfl⟩ :=
          mem_map.mp (breadthOrder_subset (perm.mem_iff.mp inLeft))
        obtain ⟨rightBlock, rightMember, rfl⟩ :=
          mem_map.mp (breadthOrder_subset (perm.mem_iff.mp inRight))
        rw [← sameRanks] at level ⊢
        have levelDepth : depth (genesis :: later) leftBlock.hash =
            depth (genesis :: later) rightBlock.hash := by
          rw [← delivered.colored.scoreOf few (mem_map_of_mem leftMember),
            ← delivered.colored.scoreOf few (mem_map_of_mem rightMember)]
          exact congrArg BitVec.toNat level
        have sameTime := simultaneous leftBlock leftMember rightBlock rightMember levelDepth
        refine .inr ⟨level, ?_⟩
        simp [rankOf, timestampOf, delivered.colored.timestamps, sameTime,
          (find_eq_some_iff (nodup_hashes order)).mpr ⟨leftMember, rfl⟩,
          (find_eq_some_iff (nodup_hashes order)).mpr ⟨rightMember, rfl⟩]
    have permRanks : (dag.ordering.map dag.rankOf).Perm (rebuilt.ordering.map rebuilt.rankOf) := by
      rw [sameRanks]
      exact ordering.map _
    exact permRanks.eq_of_pairwise' (delivered.ordering_laterFirst few) descending

end Compare

/-- After every delivery with parents first, the maintained state is the recomputed one exactly on
rebuildable DAGs. -/
theorem deliver_sameUpToTies_rebuild_iff (search : BinarySearch)
    (iterations : Hash → SetIteration Hash)
    (again : SetIteration Hash) (database : Option DagDatabase) {blocks : List Block}
    (order : ParentsFirst blocks) (few : blocks.length ≤ 200) :
    SameUpToTies (deliver search iterations blocks (new database))
        ((deliver search iterations blocks (new database)).rebuildFromScratch again) ↔
      Rebuildable blocks := by
  have delivered := deliver_spec search iterations database order few
  generalize deliver search iterations blocks (new database) = dag at delivered ⊢
  cases blocks with
  | nil =>
    have unchanged : dag.rebuildFromScratch again = dag := by
      simp [rebuildFromScratch, updateBlueSet, delivered.colored.genesis]
    rw [unchanged]
    refine ⟨fun _ => ⟨by simp [AtMostOneRoot], ?_, by simp [SimultaneousLevels]⟩,
      fun _ => ⟨rfl, rfl, rfl, Perm.refl _, rfl⟩⟩
    intro before node after split
    simp [breadthOrder] at split
  | cons genesis later =>
    have few : (genesis :: later).length ≤ 1000 := by omega
    obtain ⟨value, scored, sorted⟩ := rebuildFromScratch_spec order few again delivered.colored
    exact ⟨scored.rebuildable order few delivered sorted,
      scored.sameUpToTies order few delivered sorted⟩

theorem simultaneous_fork_rebuildable :
    ParentsFirst (fork 1600000010 1600000010) ∧ Rebuildable (fork 1600000010 1600000010) :=
  ⟨by decide +kernel,
    (deliver_sameUpToTies_rebuild_iff standard numericIterations (numericIterations 0) none
      (by decide +kernel) (by decide)).mp
        ⟨by decide +kernel, by decide +kernel, by decide +kernel, by decide +kernel,
          by decide +kernel⟩⟩

/-- A chain of three blocks, and a fourth block on top of its first and its last. -/
def shortcut : List Block :=
  [plainBlock 1 [] 0 1600000000, plainBlock 2 [1] 1 1600000010, plainBlock 3 [2] 2 1600000020,
    plainBlock 4 [1, 3] 3 1600000030]

/-- The traversal reaches the fourth block from the first one and scores it before the third. On a
fork both routines agree on the scores and sort the two children the other way around. -/
theorem rebuild_differs_on_shortcut_and_fork : ParentsFirst shortcut ∧
    ParentsFirst (fork 1600000010 1600000011) ∧
      (deliver standard numericIterations shortcut (new none)).scoreOf 4 = 4 ∧
      ((deliver standard numericIterations shortcut (new none)).rebuildFromScratch
        (numericIterations 0)).scoreOf 4 = 2 ∧
      (deliver standard numericIterations (fork 1600000010 1600000011) (new none)).ordering =
        [3, 2, 1] ∧
      ((deliver standard numericIterations (fork 1600000010 1600000011)
        (new none)).rebuildFromScratch (numericIterations 0)).ordering = [2, 3, 1] := by
  decide +kernel

end GhostDag

end IronDag
