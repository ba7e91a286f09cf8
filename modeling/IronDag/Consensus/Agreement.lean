import IronDag.Consensus.Incremental

namespace IronDag

open Delivery GhostDag List

namespace GhostDag

/-- Two nodes give the same consensus answers. -/
structure Agrees (first second : GhostDag) : Prop where
  blueSet : first.blueSet = second.blueSet
  blueScore : first.blueScore = second.blueScore
  ordering : first.ordering = second.ordering
  finalized : first.getFinalizedBlockHash = second.getFinalizedBlockHash

end GhostDag

namespace Delivery

def SingleGenesis (blocks : List Block) : Prop :=
  ∃ genesis ∈ blocks, genesis.parents = [] ∧ ∀ other ∈ blocks, other.parents = [] → other = genesis

/-- No two blocks share both their depth and their timestamp. -/
def Untied (blocks : List Block) : Prop :=
  ∀ left ∈ blocks, ∀ right ∈ blocks, depth blocks left.hash = depth blocks right.hash →
    left.header.timestamp = right.header.timestamp → left = right

instance (blocks : List Block) : Decidable (SingleGenesis blocks) :=
  inferInstanceAs (Decidable (∃ _ ∈ _, _))

instance (blocks : List Block) : Decidable (Untied blocks) :=
  inferInstanceAs (Decidable (∀ _ ∈ _, ∀ _ ∈ _, _))

theorem SingleGenesis.of_perm (same : first.Perm second) (single : SingleGenesis second) :
    SingleGenesis first := by
  obtain ⟨genesis, member, root, unique⟩ := single
  exact ⟨genesis, same.mem_iff.mpr member, root,
    fun other inFirst => unique other (same.mem_iff.mp inFirst)⟩

theorem rank_eq_iff (distinct : (hashes blocks).Nodup) (inLeft : left ∈ blocks)
    (inRight : right ∈ blocks) : rank blocks left.hash = rank blocks right.hash ↔
      depth blocks left.hash = depth blocks right.hash ∧
        left.header.timestamp = right.header.timestamp := by
  have leftFound := (find_eq_some_iff distinct).mpr ⟨inLeft, rfl⟩
  have rightFound := (find_eq_some_iff distinct).mpr ⟨inRight, rfl⟩
  simp only [rank, timestampOf, leftFound, rightFound, Option.map_some, Option.getD_some,
    EmbeddingLike.apply_eq_iff_eq, Prod.mk.injEq, BitVec.toNat_inj]

/-- With one genesis every delivered block enters the ordering. -/
theorem placed_eq_hashes (order : ParentsFirst blocks) (single : SingleGenesis blocks) :
    placed blocks = hashes blocks := by
  obtain ⟨genesis, -, -, unique⟩ := single
  cases blocks with
  | nil => rfl
  | cons first rest =>
    have distinct := nodup_hashes order
    have root := genesis_parents order
    have hasParents : ∀ block ∈ rest, decide (block.parents ≠ []) = true := by
      intro block member
      rw [decide_eq_true_iff]
      intro parentless
      have same : block = first :=
        (unique block (by simp [member]) parentless).trans (unique first (by simp) root).symm
      subst same
      simp only [hashes, map_cons, nodup_cons] at distinct
      exact distinct.1 (mem_map_of_mem member)
    rw [placed, take_succ_cons, drop_succ_cons, drop_zero, filter_eq_self.mpr hasParents]
    rfl

/-- Two tied blocks can be delivered next to each other, in either order. -/
theorem exists_adjacent_orders (order : ParentsFirst blocks)
    (inLeft : left ∈ blocks) (inRight : right ∈ blocks) (different : left ≠ right)
    (level : depth blocks left.hash = depth blocks right.hash) :
    ∃ front back, (front ++ left :: right :: back).Perm blocks ∧
      ParentsFirst (front ++ left :: right :: back) ∧
      ParentsFirst (front ++ right :: left :: back) := by
  let byDepth := SetIteration.KeyLE fun block : Block => depth blocks block.hash
  let layered := blocks.insertionSort byDepth
  have layeredPerm : layered.Perm blocks := perm_insertionSort byDepth blocks
  have layeredSorted : layered.Pairwise byDepth := pairwise_insertionSort byDepth blocks
  have nodup : blocks.Nodup := Nodup.of_map Block.hash (nodup_hashes order)
  let shallow : Block → Bool :=
    fun block => decide (depth blocks block.hash < depth blocks left.hash)
  let others := (layered.filter fun block => !shallow block).filter fun block =>
    decide (block ≠ left ∧ block ≠ right)
  let front := layered.filter shallow
  have deepPerm : (left :: right :: others).Perm (layered.filter fun block => !shallow block) := by
    have deepNodup : (layered.filter fun block => !shallow block).Nodup :=
      (layeredPerm.nodup_iff.mpr nodup).filter _
    refine (perm_ext_iff_of_nodup ?_ deepNodup).mpr ?_
    · simp only [nodup_cons, mem_cons, not_or]
      refine ⟨⟨different, by simp [others]⟩, by simp [others], deepNodup.filter _⟩
    · intro block
      have leftDeep : left ∈ layered.filter fun block => !shallow block := by
        simp [shallow, layeredPerm.mem_iff, inLeft]
      have rightDeep : right ∈ layered.filter fun block => !shallow block := by
        simp [shallow, layeredPerm.mem_iff, inRight, level]
      simp only [others, mem_cons,
        mem_filter (p := fun block => decide (block ≠ left ∧ block ≠ right)),
        decide_eq_true_eq]
      constructor
      · rintro (rfl | rfl | ⟨deep, -⟩)
        · exact leftDeep
        · exact rightDeep
        · exact deep
      · intro deep
        by_cases isLeft : block = left
        · exact .inl isLeft
        · by_cases isRight : block = right
          · exact .inr (.inl isRight)
          · exact .inr (.inr ⟨deep, isLeft, isRight⟩)
  have perm : (front ++ left :: right :: others).Perm blocks :=
    (deepPerm.append_left front).trans ((filter_append_perm shallow layered).trans layeredPerm)
  -- both orders are sorted by depth: shallower blocks, the tied pair, the rest
  have sorted : ∀ first second : Block, depth blocks first.hash = depth blocks left.hash →
      depth blocks second.hash = depth blocks left.hash →
      (front ++ first :: second :: others).Pairwise fun one other =>
        depth blocks one.hash ≤ depth blocks other.hash := by
    intro first second firstLevel secondLevel
    have othersDeep : ∀ block ∈ others, depth blocks left.hash ≤ depth blocks block.hash := by
      intro block member
      have deep := (mem_filter.mp (mem_filter.mp member).1).2
      simpa [shallow] using deep
    refine pairwise_append.mpr ⟨layeredSorted.filter _, ?_, ?_⟩
    · refine pairwise_cons.mpr ⟨?_, pairwise_cons.mpr ⟨?_, (layeredSorted.filter _).filter _⟩⟩
      · intro block member
        rcases mem_cons.mp member with rfl | later
        · omega
        · have := othersDeep block later
          omega
      · intro block member
        have := othersDeep block member
        omega
    · intro block inFront other inBack
      have isShallow : depth blocks block.hash < depth blocks left.hash := by
        simpa [shallow] using (mem_filter.mp inFront).2
      rcases mem_cons.mp inBack with rfl | later
      · omega
      · rcases mem_cons.mp later with rfl | later
        · omega
        · have := othersDeep other later
          omega
  refine ⟨front, others, perm,
    parentsFirst_of_depth_sorted order perm (sorted left right rfl level.symm),
    parentsFirst_of_depth_sorted order ?_ (sorted right left level.symm rfl)⟩
  exact ((Perm.swap left right others).append_left front).trans perm

end Delivery

namespace GhostDag

/-- Whatever order with parents first the blocks arrive in, and whatever the nodes' hash sets and
databases look like, all nodes agree. -/
def DeliveryOrderImmaterial (search : BinarySearch) (blocks : List Block) : Prop :=
  ∀ first second : List Block, first.Perm blocks → second.Perm blocks →
    ParentsFirst first → ParentsFirst second →
    ∀ (iterations otherIterations : Hash → SetIteration Hash)
      (database otherDatabase : Option DagDatabase),
      Agrees (deliver search iterations first (new database))
        (deliver search otherIterations second (new otherDatabase))

section Orders

variable {search : BinarySearch} {blocks : List Block} (order : ParentsFirst blocks)
  (single : SingleGenesis blocks) (few : blocks.length ≤ 200)

include order single few

omit order in
/-- The state after a delivery, in terms of the DAG alone except for the order of insertion. -/
theorem deliver_reordered (search : BinarySearch) (same : arrival.Perm blocks)
    (arrivalOrder : ParentsFirst arrival)
    (iterations : Hash → SetIteration Hash) (database : Option DagDatabase) :
    Delivered search arrival (deliver search iterations arrival (new database)) ∧
      (deliver search iterations arrival (new database)).ordering =
        search.insertAll (rank blocks) (hashes arrival) := by
  have delivered := deliver_spec search iterations database arrivalOrder (same.length_eq ▸ few)
  refine ⟨delivered, ?_⟩
  rw [delivered.ordering, placed_eq_hashes arrivalOrder (single.of_perm same),
    rank_perm same (nodup_hashes arrivalOrder)]

theorem agrees_of_untied (untied : Untied blocks) : DeliveryOrderImmaterial search blocks := by
  intro first second firstPerm secondPerm firstOrder secondOrder iterations otherIterations database
    otherDatabase
  obtain ⟨⟨firstColored, -⟩, firstOrdering⟩ :=
    deliver_reordered single few search firstPerm firstOrder iterations database
  obtain ⟨⟨secondColored, -⟩, secondOrdering⟩ :=
    deliver_reordered single few search secondPerm secondOrder otherIterations otherDatabase
  have together : first.Perm second := firstPerm.trans secondPerm.symm
  have sameHashes : (hashes first).Perm (hashes second) := together.map Block.hash
  have distinctRanks : ∀ left ∈ hashes first, ∀ right ∈ hashes first,
      rank blocks left = rank blocks right → left = right := by
    intro left inLeft right inRight sameRank
    obtain ⟨leftBlock, leftMember, rfl⟩ := mem_map.mp inLeft
    obtain ⟨rightBlock, rightMember, rfl⟩ := mem_map.mp inRight
    have inBlocks := firstPerm.mem_iff.mp leftMember
    have alsoInBlocks := firstPerm.mem_iff.mp rightMember
    obtain ⟨level, simultaneous⟩ :=
      (rank_eq_iff (nodup_hashes order) inBlocks alsoInBlocks).mp sameRank
    rw [untied leftBlock inBlocks rightBlock alsoInBlocks level simultaneous]
  have ordering := search.insertAll_eq_of_perm (rank blocks) sameHashes distinctRanks
  rw [← firstOrdering, ← secondOrdering] at ordering
  refine ⟨?_, ?_, ordering, ?_⟩
  · rw [firstColored.blue, secondColored.blue]
    exact toFinset_eq_of_perm _ _ sameHashes
  · refine Finmap.ext_lookup fun hash => ?_
    rw [firstColored.scores, secondColored.scores]
    by_cases member : hash ∈ hashes first
    · rw [if_pos member, if_pos (sameHashes.mem_iff.mp member),
        depth_perm together (nodup_hashes firstOrder)]
    · rw [if_neg member, if_neg (fun present => member (sameHashes.mem_iff.mpr present))]
  · simp only [getFinalizedBlockHash, finalityDepth, ordering, firstColored.stored.interval,
      secondColored.stored.interval]

theorem untied_of_agrees (immaterial : DeliveryOrderImmaterial search blocks) : Untied blocks := by
  intro left inLeft right inRight level simultaneous
  by_contra different
  obtain ⟨front, back, perm, firstOrder, secondOrder⟩ :=
    exists_adjacent_orders order inLeft inRight different level
  have swapped : (front ++ right :: left :: back).Perm blocks :=
    ((Perm.swap left right back).append_left front).trans perm
  let iterations : Hash → SetIteration Hash := fun _ =>
    SetIteration.ascendingBy BitVec.toNat fun _ _ => BitVec.eq_of_toNat_eq
  obtain ⟨-, firstOrdering⟩ := deliver_reordered single few search perm firstOrder iterations none
  obtain ⟨-, secondOrdering⟩ :=
    deliver_reordered single few search swapped secondOrder iterations none
  have agrees := immaterial _ _ perm swapped firstOrder secondOrder iterations iterations none none
  have exchanged := agrees.ordering
  rw [firstOrdering, secondOrdering] at exchanged
  have distinct := nodup_hashes firstOrder
  have sameRank : rank blocks left.hash = rank blocks right.hash :=
    (rank_eq_iff (nodup_hashes order) inLeft inRight).mpr ⟨level, simultaneous⟩
  simp only [hashes, map_append] at exchanged distinct
  exact search.insertAll_exchange_ne (rank blocks) distinct sameRank exchanged

/-- Agreement for every order of delivery holds exactly for DAGs without a tie. -/
theorem deliveryOrderImmaterial_iff_untied : DeliveryOrderImmaterial search blocks ↔
    Untied blocks :=
  ⟨untied_of_agrees order single few, agrees_of_untied order single few⟩

end Orders

/-- A block with the header fields that the ordering depends on. -/
def plainBlock (hash : Hash) (parents : List Hash) (number timestamp : U64) : Block where
  header :=
    { parentHashes := parents, blockNumber := number, streamType := .streamA,
      difficulty := 1, timestamp
      nonce := 0, baseFeePerGas := 0, hashVersion := 1 }
  transactions := []
  hash
  zkProof := none

def numericIterations (_ : Hash) : SetIteration Hash :=
  SetIteration.ascendingBy BitVec.toNat Hash.toNat_injective

/-- Two children of the genesis block, with their timestamps. -/
def fork (leftTime rightTime : U64) : List Block :=
  [plainBlock 1 [] 0 1600000000, plainBlock 2 [1] 1 leftTime, plainBlock 3 [1] 1 rightTime]

def forkSwapped (leftTime rightTime : U64) : List Block :=
  [plainBlock 1 [] 0 1600000000, plainBlock 3 [1] 1 rightTime, plainBlock 2 [1] 1 leftTime]

theorem fork_agrees_iff : ParentsFirst (fork 1600000010 1600000011) ∧
      (DeliveryOrderImmaterial BinarySearch.standard (fork 1600000010 1600000011) ↔
        Untied (fork 1600000010 1600000011)) ∧
      Untied (fork 1600000010 1600000011) :=
  ⟨by decide +kernel, deliveryOrderImmaterial_iff_untied (by decide +kernel) (by decide +kernel)
    (by decide),
    by decide +kernel⟩

/-- Mined in the same second, the two children end up in the order of their arrival. -/
theorem tied_fork_orderings_differ :
    SingleGenesis (fork 1600000010 1600000010) ∧ ParentsFirst (fork 1600000010 1600000010) ∧
      ParentsFirst (forkSwapped 1600000010 1600000010) ∧
      (forkSwapped 1600000010 1600000010).Perm (fork 1600000010 1600000010) ∧
      (deliver BinarySearch.standard numericIterations (fork 1600000010 1600000010)
        (new none)).ordering ≠
      (deliver BinarySearch.standard numericIterations (forkSwapped 1600000010 1600000010)
        (new none)).ordering := by
  decide +kernel

end GhostDag

end IronDag
